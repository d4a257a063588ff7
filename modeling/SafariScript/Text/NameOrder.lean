/-!
# Listings by name

What has no order of its own is listed by name, names being compared code point by code point.
-/

namespace SafariScript
namespace Text

/-- Sort what is named by name. -/
def sortByName {α : Type} (entries : List (String × α)) : List (String × α) :=
  entries.mergeSort fun a b => !(b.1 < a.1)

end Text
end SafariScript
