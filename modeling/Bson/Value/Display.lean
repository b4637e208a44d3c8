import Bson.Calendar.Rfc3339
import Bson.Decimal.Layout
import Bson.Value.Basic

/-!
# Values as text for a reader

A short text of a value. Strings stand between quotes as they are, so the text is for reading and
not for taking apart.
-/

namespace Bson.Value

/-- A double has the shortest digits that read back, a tie going up, and no exponent. -/
def doubleLayout : Decimal.Layout where
  tie := .up
  hasMark _ := false
  wholeEnd := ""
  nan := "NaN"
  infinity := "inf"

/-- The first instant of the calendar that is shown, in milliseconds. -/
def firstInstant : Int := -8334601228800000

/-- The last instant of the calendar that is shown, in milliseconds. -/
def lastInstant : Int := 8210266876799999

/-- A text between double quotes. -/
def inQuotes (s : String) : String := "\"" ++ s ++ "\""

/-- An instant: its date and time, or the number of its milliseconds outside the calendar. -/
def instantText (millis : Int) : String :=
  if firstInstant ≤ millis ∧ millis ≤ lastInstant then
    inQuotes (Calendar.Rfc3339.text "+00:00" millis)
  else toString millis

mutual

/-- The text of a value. -/
def display : Value → String
  | .double x => doubleLayout.text x
  | .boxedDouble x => "Double(" ++ doubleLayout.text x ++ ")"
  | .int32 n => toString n.toInt
  | .long n => "Long(" ++ toString n.toInt64.toInt ++ ")"
  | .string s => inQuotes s
  | .document d => "\x7b" ++ displayFields d.entries ++ "\x7d"
  | .array items => "[" ++ displayItems true items ++ "]"
  | .binary b =>
    "Binary(0x" ++ String.ofList (Text.Hex.ofByte b.subtype) ++ ", " ++ toString b.data.size ++
      " bytes)"
  | .bytes data => "<bytes:" ++ toString data.size ++ ">"
  | .objectId id => "ObjectId(" ++ inQuotes id.toHex ++ ")"
  | .boolean b => if b then "true" else "false"
  | .dateTime millis => "DateTime(" ++ instantText millis.toInt ++ ")"
  | .null => "null"
  | .undefined => "undefined"
  | .regex r => "/" ++ r.pattern ++ "/" ++ r.flags.toOptions
  | .code source => "Code(" ++ source ++ ")"
  | .scopedCode source scope =>
    "Code(" ++ source ++ ", scope: \x7b" ++ displayFields scope.entries ++ "\x7d)"
  | .function source => "Function(" ++ source ++ ")"
  | .symbol s => "Symbol(" ++ s ++ ")"
  | .timestamp t => "Timestamp(" ++ toString t.low.toInt ++ ", " ++ toString t.high.toInt ++ ")"
  | .minKey => "MinKey"
  | .maxKey => "MaxKey"
  | .dbRef collection id database =>
    "DBRef(" ++ inQuotes collection ++ ", " ++ display id ++
      (match database with
        | some database => ", " ++ inQuotes database
        | none => "") ++ ")"
  | .hook _ _ => "<convertible>"
  | .brokenHook _ => "<convertible>"

/-- The texts of items; a comma stands before each but the first. -/
def displayItems : Bool → List Value → String
  | _, [] => ""
  | first, v :: rest => (if first then "" else ", ") ++ display v ++ displayItems false rest

/-- The texts of fields; a comma stands between them. -/
def displayFields : {keys : List String} → Entries Value keys → String
  | _, .nil => ""
  | _, @Entries.snoc _ before init key v _ =>
    displayFields init ++ (if before.isEmpty then "" else ", ") ++ inQuotes key ++ ": " ++
      display v

end

/-- The text of a document. -/
def displayDocument (d : Document) : String := display (.document d)

end Bson.Value
