import Quill.Token.Basic

/-!
Token listings: the plain one, a line for each token, and the two layouts of the
structured one. A listing shows kinds and spans; names of kinds need no escaping.
-/

namespace Quill.Listing

set_option autoImplicit false

def plain (tokens : List Token) : String :=
  String.join (tokens.map fun token => token.describe ++ "\n")

def compact (token : Token) : String :=
  String.join
    ["\x7b\"kind\":\"", token.kind.name, "\",\"span\":\x7b\"start\":", toString token.span.start,
      ",\"end\":", toString token.span.stop, "\x7d\x7d"]

def entry (token : Token) : String :=
  String.intercalate "\n"
    ["  \x7b",
      "    \"kind\": \"" ++ token.kind.name ++ "\",",
      "    \"span\": \x7b",
      "      \"start\": " ++ toString token.span.start ++ ",",
      "      \"end\": " ++ toString token.span.stop,
      "    \x7d",
      "  \x7d"]

def indented (tokens : List Token) : String :=
  if tokens.isEmpty then "[]\n"
  else "[\n" ++ String.intercalate ",\n" (tokens.map entry) ++ "\n]\n"

end Quill.Listing
