/-!
# ASCII case

Keywords are compared without regard to the case of the 26 Latin letters. All other characters
stand for themselves.
-/

namespace OData.Text

def asciiLower (s : String) : String := String.ofList (s.toList.map Char.toLower)

end OData.Text
