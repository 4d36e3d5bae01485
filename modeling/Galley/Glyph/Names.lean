/-!
Special character names and the text they stand for, by topic. Every name stands for a single
character, except for the ligatures.
-/
namespace Galley.Glyph

def ligatures : List (String × String) := [
  ("ff", "ff"), ("fi", "fi"), ("fl", "fl"), ("ffi", "ffi"), ("ffl", "ffl")]

def letters : List (String × String) := [
  ("-D", "Đ"), ("Sd", "ð"), ("TP", "Þ"), ("Tp", "þ"), ("ss", "ß"), ("AE", "Æ"), ("ae", "æ"),
  ("OE", "Œ"), ("oe", "œ"), ("IJ", "Ĳ"), ("ij", "ĳ"), (".i", "ı"), (".j", "ȷ"), ("/L", "Ł"),
  ("/l", "ł"), ("/O", "Ø"), ("/o", "ø"), ("'A", "Á"), ("'C", "Ć"), ("'E", "É"), ("'I", "Í"),
  ("'O", "Ó"), ("'U", "Ú"), ("'Y", "Ý"), ("'a", "á"), ("'c", "ć"), ("'e", "é"), ("'i", "í"),
  ("'o", "ó"), ("'u", "ú"), ("'y", "ý"), (":A", "Ä"), (":E", "Ë"), (":I", "Ï"), (":O", "Ö"),
  (":U", "Ü"), (":Y", "Ÿ"), (":a", "ä"), (":e", "ë"), (":i", "ï"), (":o", "ö"), (":u", "ü"),
  (":y", "ÿ"), ("^A", "Â"), ("^E", "Ê"), ("^I", "Î"), ("^O", "Ô"), ("^U", "Û"), ("^a", "â"),
  ("^e", "ê"), ("^i", "î"), ("^o", "ô"), ("^u", "û"), ("`A", "À"), ("`E", "È"), ("`I", "Ì"),
  ("`O", "Ò"), ("`U", "Ù"), ("`a", "à"), ("`e", "è"), ("`i", "ì"), ("`o", "ò"), ("`u", "ù"),
  ("~A", "Ã"), ("~N", "Ñ"), ("~O", "Õ"), ("~a", "ã"), ("~n", "ñ"), ("~o", "õ"), ("vS", "Š"),
  ("vs", "š"), ("vZ", "Ž"), ("vz", "ž"), (",C", "Ç"), (",c", "ç"), ("oA", "Å"), ("oa", "å")]

def accents : List (String × String) := [
  ("a\"", "˝"), ("a-", "¯"), ("a.", "˙"), ("a^", "^"), ("aa", "´"), ("ga", "`"), ("ab", "˘"),
  ("ac", "¸"), ("ad", "¨"), ("ah", "ˇ"), ("ao", "˚"), ("a~", "~"), ("ho", "˛"), ("ha", "^"),
  ("ti", "~")]

def quotes : List (String × String) := [
  ("Bq", "„"), ("bq", "‚"), ("lq", "“"), ("rq", "”"), ("oq", "‘"), ("cq", "’"), ("aq", "'"),
  ("dq", "\""), ("Fo", "«"), ("Fc", "»"), ("fo", "‹"), ("fc", "›")]

def punctuation : List (String × String) := [
  ("r!", "¡"), ("r?", "¿"), ("em", "—"), ("en", "–"), ("hy", "‐")]

def brackets : List (String × String) := [
  ("lB", "["), ("rB", "]"), ("lC", "\x7b"), ("rC", "\x7d"), ("la", "⟨"), ("ra", "⟩"),
  ("bv", "⎪"), ("braceex", "⎪"), ("lt", "⎧"), ("lk", "⎨"), ("lb", "⎩"), ("rt", "⎫"),
  ("rk", "⎬"), ("rb", "⎭"), ("bracketlefttp", "⎡"), ("bracketleftex", "⎢"),
  ("bracketleftbt", "⎣"), ("bracketrighttp", "⎤"), ("bracketrightex", "⎥"),
  ("bracketrightbt", "⎦"), ("parenlefttp", "⎛"), ("parenleftex", "⎜"), ("parenleftbt", "⎝"),
  ("parenrighttp", "⎞"), ("parenrightex", "⎟"), ("parenrightbt", "⎠")]

def arrows : List (String × String) := [
  ("<-", "←"), ("->", "→"), ("<>", "↔"), ("da", "↓"), ("ua", "↑"), ("va", "↕"), ("lA", "⇐"),
  ("rA", "⇒"), ("hA", "⇔"), ("dA", "⇓"), ("uA", "⇑"), ("vA", "⇕"), ("an", "⎯")]

def lines : List (String × String) := [
  ("ba", "|"), ("br", "│"), ("ul", "_"), ("rn", "‾"), ("ru", "_"), ("bb", "¦"), ("sl", "/"),
  ("rs", "\\")]

def textMarkers : List (String × String) := [
  ("ci", "○"), ("bu", "•"), ("dd", "‡"), ("dg", "†"), ("lz", "◊"), ("sq", "□"), ("ps", "¶"),
  ("sc", "§"), ("lh", "☜"), ("rh", "☞"), ("at", "@"), ("sh", "#"), ("CR", "↵"), ("OK", "✓")]

def legalSymbols : List (String × String) := [
  ("co", "©"), ("rg", "®"), ("tm", "™")]

def currencySymbols : List (String × String) := [
  ("Do", "$"), ("ct", "¢"), ("eu", "€"), ("Eu", "€"), ("Ye", "¥"), ("Po", "£"), ("Cs", "¤"),
  ("Fn", "ƒ")]

def units : List (String × String) := [
  ("de", "°"), ("%0", "‰"), ("fm", "′"), ("sd", "″"), ("mc", "µ"), ("Of", "ª"), ("Om", "º")]

def logicalSymbols : List (String × String) := [
  ("AN", "∧"), ("OR", "∨"), ("no", "¬"), ("tno", "¬"), ("te", "∃"), ("fa", "∀"), ("st", "∋"),
  ("3d", "∴"), ("tf", "∴"), ("or", "|")]

def mathematicalSymbols : List (String × String) := [
  ("12", "½"), ("14", "¼"), ("34", "¾"), ("18", "⅛"), ("38", "⅜"), ("58", "⅝"), ("78", "⅞"),
  ("S1", "¹"), ("S2", "²"), ("S3", "³"), ("pl", "+"), ("mi", "−"), ("-+", "∓"), ("+-", "±"),
  ("t+-", "±"), ("pc", "·"), ("md", "⋅"), ("mu", "×"), ("tmu", "×"), ("c*", "⊗"), ("c+", "⊕"),
  ("di", "÷"), ("tdi", "÷"), ("f/", "⁄"), ("**", "∗"), ("<=", "≤"), (">=", "≥"), ("<<", "≪"),
  (">>", "≫"), ("!=", "≠"), ("eq", "="), ("==", "≡"), ("ne", "≢"), ("=~", "≅"), ("|=", "≃"),
  ("ap", "∼"), ("~~", "≈"), ("~=", "≈"), ("pt", "∝"), ("es", "∅"), ("mo", "∈"), ("nm", "∉"),
  ("sb", "⊂"), ("nb", "⊄"), ("sp", "⊃"), ("nc", "⊅"), ("ib", "⊆"), ("ip", "⊇"), ("ca", "∩"),
  ("cu", "∪"), ("/_", "∠"), ("pp", "⊥"), ("is", "∫"), ("integral", "∫"), ("sum", "∑"),
  ("product", "∏"), ("coproduct", "∐"), ("gr", "∇"), ("sr", "√"), ("sqrt", "√"), ("lc", "⌈"),
  ("rc", "⌉"), ("lf", "⌊"), ("rf", "⌋"), ("if", "∞"), ("Ah", "ℵ"), ("Im", "ℑ"), ("Re", "ℜ"),
  ("wp", "℘"), ("pd", "∂"), ("-h", "ℏ"), ("hbar", "ℏ")]

def greek : List (String × String) := [
  ("*A", "Α"), ("*B", "Β"), ("*G", "Γ"), ("*D", "Δ"), ("*E", "Ε"), ("*Z", "Ζ"), ("*Y", "Η"),
  ("*H", "Θ"), ("*I", "Ι"), ("*K", "Κ"), ("*L", "Λ"), ("*M", "Μ"), ("*N", "Ν"), ("*C", "Ξ"),
  ("*O", "Ο"), ("*P", "Π"), ("*R", "Ρ"), ("*S", "Σ"), ("*T", "Τ"), ("*U", "Υ"), ("*F", "Φ"),
  ("*X", "Χ"), ("*Q", "Ψ"), ("*W", "Ω"), ("*a", "α"), ("*b", "β"), ("*g", "γ"), ("*d", "δ"),
  ("*e", "ε"), ("*z", "ζ"), ("*y", "η"), ("*h", "θ"), ("*i", "ι"), ("*k", "κ"), ("*l", "λ"),
  ("*m", "μ"), ("*n", "ν"), ("*c", "ξ"), ("*o", "ο"), ("*p", "π"), ("*r", "ρ"), ("ts", "ς"),
  ("*s", "σ"), ("*t", "τ"), ("*u", "υ"), ("*f", "ϕ"), ("*x", "χ"), ("*q", "ψ"), ("*w", "ω"),
  ("+h", "ϑ"), ("+f", "φ"), ("+p", "ϖ"), ("+e", "ϵ")]

def cardSymbols : List (String × String) := [
  ("CL", "♣"), ("SP", "♠"), ("HE", "♥"), ("DI", "♦")]

def names : List (String × String) :=
  ligatures ++ letters ++ accents ++ quotes ++ punctuation ++ brackets ++ arrows ++ lines ++
  textMarkers ++ legalSymbols ++ currencySymbols ++ units ++ logicalSymbols ++
  mathematicalSymbols ++ greek ++ cardSymbols

end Galley.Glyph
