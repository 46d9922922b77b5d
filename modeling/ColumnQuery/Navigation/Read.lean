import ColumnQuery.Expr.Basic
import ColumnQuery.Schema.Catalog

/-! # Reads of navigations

The form in which a lambda over an entity names one of the entity's navigations. -/

namespace ColumnQuery

/-- The join plan of a navigation of the root that is read from the parameter. -/
def Expr.navigationOf? (catalog : Catalog) (root : EntityType) (parameter : String) :
    Expr → Option JoinPlan
  | .member target name =>
    if target.isParameter parameter then catalog.join? root.name name else none
  | _ => none

end ColumnQuery
