/-!
# Internal class names

An internal name is a path with `/` between packages, such as `java/util/Map$Entry`. What follows the last `/` is the
simple name and what precedes it the package, which is empty when there is no `/`.
-/

namespace ClassLift

namespace Text

/-- What follows the last `mark`, or everything where there is none. -/
def afterLast (mark : Char) (text : List Char) : List Char :=
  (text.reverse.takeWhile (· != mark)).reverse

/-- What precedes the last `mark`, or nothing where there is none. -/
def beforeLast (mark : Char) (text : List Char) : List Char :=
  (text.reverse.dropWhile (· != mark)).tail.reverse

end Text

namespace ClassName

def simple (name : String) : String := .ofList (Text.afterLast '/' name.toList)

def package (name : String) : String := .ofList (Text.beforeLast '/' name.toList)

end ClassName

end ClassLift
