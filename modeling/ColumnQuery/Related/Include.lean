import ColumnQuery.Related.Materialize

/-! # Included navigations

Loads navigations into a page of entities, path by path, with one scan of the related table for each
path instead of one lookup for each root. -/

namespace ColumnQuery

/-- Navigations one after the other, from the root. -/
abbrev IncludePath := List JoinPlan

def IncludePath.names (path : IncludePath) : List String :=
  path.map (·.navigation)

/-- Distinct paths, shallow first. -/
structure IncludePlan where
  paths : List IncludePath

namespace IncludePlan

/-- Walks one chain of navigation names from an entity and adds every path on the way that is not
there yet. -/
def addChain (catalog : Catalog) (entity : String) (path : IncludePath) :
    List String → List IncludePath → Except Error (List IncludePath)
  | [], paths => .ok paths
  | navigation :: rest, paths =>
    match catalog.join? entity navigation with
    | none => .error (.unknownMember entity navigation)
    | some j =>
      if j.isCollection && j.shape ≠ some .readOnly then
        .error (.invalidNavigationShape entity navigation j.target.name)
      else
        let path := path ++ [j]
        let paths :=
          if paths.any (·.names == path.names) then paths else paths ++ [path]
        addChain catalog j.target.name path rest paths

def ofChains (catalog : Catalog) (root : EntityType) (chains : List (List String)) :
    Except Error IncludePlan := do
  let paths ← chains.foldlM (fun paths chain => addChain catalog root.name [] chain paths) []
  return ⟨paths.mergeSort fun a b => a.length ≤ b.length⟩

end IncludePlan

def Value.entities : Value → List Entity
  | .entity type fields => [⟨type, fields⟩]
  | .array items | .collection items => items.filterMap Value.entity?
  | _ => []

def Value.mapEntity (f : Entity → Entity) : Value → Value
  | .entity type fields => (f ⟨type, fields⟩).toValue
  | v => v

def Value.mapEntities (f : Entity → Entity) : Value → Value
  | .entity type fields => (f ⟨type, fields⟩).toValue
  | .array items => .array (items.map (·.mapEntity f))
  | .collection items => .collection (items.map (·.mapEntity f))
  | v => v

namespace Entity

/-- Entities reached by following loaded navigations. -/
def reached : IncludePath → Entity → List Entity
  | [], e => [e]
  | j :: rest, e =>
    match e.get? j.navigation with
    | some v => v.entities.flatMap (reached rest)
    | none => []

def mapReached (f : Entity → Entity) : IncludePath → Entity → Entity
  | [], e => f e
  | j :: rest, e =>
    match e.get? j.navigation with
    | some v => e.set j.navigation (v.mapEntities (mapReached f rest))
    | none => e

/-- Keys that an entity joins on, in order and without zeros. -/
def rootKeys (e : Entity) (j : JoinPlan) : List Int :=
  match e.get? j.rootKey.member with
  | some (.array items) | some (.collection items) =>
    (items.filterMap Value.key?).filter (· ≠ 0)
  | some v => v.key?.toList.filter (· ≠ 0)
  | none => []

end Entity

/-- Target entities by key, in order of rows. -/
abbrev LoadedRows := List (Int × Value)

namespace JoinPlan

/-- Materializes the target rows that hold one of the keys. -/
def loadRows (j : JoinPlan) (factory : EntityFactory) (t : Table) (keys : List Int) :
    List RowHandle → Traced LoadedRows
  | [] => pure []
  | h :: rest => do
    .emit (.pull j.target.table)
    let key ← .ofResult (t.readKey h j.targetKey.field)
    let found ← match key with
      | some key =>
        if keys.contains key then do
          let e ← j.target.materialize factory t h
          pure [(key, e.toValue)]
        else pure []
      | none => pure []
    return found ++ (← j.loadRows factory t keys rest)

/-- Target rows for the keys of several entities; the table is left alone if there are none. -/
def loadFor (j : JoinPlan) (db : Database) (holders : List Entity) : Traced LoadedRows := do
  let keys := holders.flatMap (·.rootKeys j)
  if keys.isEmpty then pure []
  else do
    let t ← .ofResult (db.tables.table j.target.table)
    j.loadRows db.factory t keys t.handles

def valueOn (j : JoinPlan) (loaded : LoadedRows) (e : Entity) : Value :=
  match j.kind with
  | .foreignKey | .sharedPrimaryKey =>
    ((e.rootKeys j).head?.bind fun key => loaded.lookup key).getD .null
  | .keyArray => j.wrap ((e.rootKeys j).filterMap fun key => loaded.lookup key)
  | .dependents =>
    match (e.rootKeys j).head? with
    | some key => j.wrap ((loaded.filter (·.1 == key)).map (·.2))
    | none => j.wrap []

end JoinPlan

namespace IncludePlan

/-- Loads the last navigation of a path into the entities that its beginning reaches. -/
def loadPath (db : Database) (path : IncludePath) (page : List Entity) :
    Traced (List Entity) := do
  match path.getLast? with
  | none => return page
  | some j =>
    let start := path.dropLast
    let loaded ← j.loadFor db (page.flatMap (·.reached start))
    return page.map (·.mapReached (fun e => e.set j.navigation (j.valueOn loaded e)) start)

def loadPaths (db : Database) : List IncludePath → List Entity → Traced (List Entity)
  | [], page => pure page
  | path :: rest, page => do
    let page ← loadPath db path page
    loadPaths db rest page

def apply (plan : IncludePlan) (db : Database) (page : List Entity) : Traced (List Entity) :=
  loadPaths db plan.paths page

end IncludePlan

end ColumnQuery
