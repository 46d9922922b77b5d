import ColumnQuery.Reads
import ColumnQuery.Schema.Catalog
import ColumnQuery.Text.Match

/-! # Words

The words that stand for small choices in exchanged forms. -/

namespace ColumnQuery

def CollectionShape.word : CollectionShape → String
  | .array => "array"
  | .readOnly => "readonly"
  | .list => "list"

def CollectionShape.ofWord? (word : String) : Option CollectionShape :=
  [.array, .readOnly, .list].find? fun s => s.word == word

def MatchKind.word : MatchKind → String
  | .contains => "contains"
  | .startsWith => "starts"
  | .endsWith => "ends"

def MatchKind.ofWord? (word : String) : Option MatchKind :=
  [.contains, .startsWith, .endsWith].find? fun k => k.word == word

def Usage.word : Usage → String
  | .scalar => "scalar"
  | .string => "string"
  | .joinKey => "key"

def Usage.ofWord? (word : String) : Option Usage :=
  [.scalar, .string, .joinKey].find? fun u => u.word == word

def JoinKind.word : JoinKind → String
  | .foreignKey => "fk_to_pk"
  | .sharedPrimaryKey => "shared_pk"
  | .keyArray => "fk_array_to_pk"
  | .dependents => "dependent_fk"

end ColumnQuery
