import EntityQuery.Compile.Error

/-!
# Traced answers

An answer together with the field paths that were resolved on the way to it. A failure keeps the
paths that came before it.
-/

namespace EntityQuery

structure Traced (α : Type) where
  paths : List FieldPath
  result : Except CompileError α

namespace Traced

variable {α β : Type}

def ok (a : α) : Traced α := ⟨[], .ok a⟩

def fail (e : CompileError) : Traced α := ⟨[], .error e⟩

/-- An answer that reads no field. -/
def lift (r : Except CompileError α) : Traced α := ⟨[], r⟩

def path (base? : Option FieldPath) (n : Node) : Traced FieldPath :=
  match n.fieldPath base? with
  | .ok p => ⟨[p], .ok p⟩
  | .error e => .fail e

/-- Go on from an answer; the paths follow one another. -/
def andThen (x : Traced α) (f : α → Traced β) : Traced β :=
  match x.result with
  | .ok a => ⟨x.paths ++ (f a).paths, (f a).result⟩
  | .error e => ⟨x.paths, .error e⟩

def map (f : α → β) (x : Traced α) : Traced β :=
  ⟨x.paths, x.result.map f⟩

end Traced

end EntityQuery
