import Mathlib.Data.List.Infix

/-!
Document paths of Firestore. A path is parsed into its segments; below a
collection it names a document only if the whole has an even number of them.
Any other path, the empty one among them, is a failed assertion that brings the
app down.
-/
namespace Mber.Firestore

abbrev ResourcePath := List String

/-- `ResourcePath::FromString`: two slashes in a row are refused, a slash at
either end is dropped. -/
def fromString (path : String) : Option ResourcePath :=
  if ['/', '/'] <:+: path.toList then none
  else some (((path.toList.splitOn '/').filter (fun segment => segment ≠ [])).map String.ofList)

/-- `CollectionReference::Document`, followed by the check of `DocumentReference`. -/
def document (collection : ResourcePath) (documentPath : String) : Option ResourcePath :=
  (fromString documentPath).bind fun subPath =>
    let path := collection ++ subPath
    if path.length % 2 = 0 then some path else none

theorem document_empty (collection : String) : document [collection] "" = none := rfl

example : document ["users"] "ann" = some ["users", "ann"] := by decide

end Mber.Firestore
