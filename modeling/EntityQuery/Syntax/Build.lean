import EntityQuery.Syntax.Node

/-!
# Building queries

A query is built clause by clause from plain values: `QueryOptions.empty.withSkip 10`.
-/

namespace EntityQuery

namespace QueryOptions

def empty : QueryOptions :=
  ⟨none, none, none, none, none, none, none⟩

def withResource (q : QueryOptions) (path : String) : QueryOptions :=
  { q with resource := some (.identifier path) }

def withFilter (q : QueryOptions) (expression : Node) : QueryOptions :=
  { q with filter := some (.filter (some expression)) }

/-- Order by these paths; a path without a direction is in ascending order. -/
def withOrderBy (q : QueryOptions) (keys : List (String × Option Direction)) : QueryOptions :=
  { q with
    orderBy := some (.orderBy (keys.map fun (path, d) => .orderKey (.identifier path) d)) }

def withSelect (q : QueryOptions) (paths : List String) : QueryOptions :=
  { q with select := some (.select (paths.map .identifier)) }

def withSkip (q : QueryOptions) (count : Int64) : QueryOptions :=
  { q with skip := some (.skip (.literal (.integer count))) }

def withTop (q : QueryOptions) (count : Int64) : QueryOptions :=
  { q with top := some (.top (.literal (.integer count))) }

def withExpand (q : QueryOptions) (items : List ExpandItem) : QueryOptions :=
  { q with expand := some (.expand items) }

end QueryOptions

namespace ExpandItem

def ofPath (path : String) : ExpandItem :=
  ⟨.identifier path, none⟩

def withOptions (item : ExpandItem) (q : QueryOptions) : ExpandItem :=
  { item with options := some (.options q) }

end ExpandItem

end EntityQuery
