import Galley.Canvas.Document
import Galley.Json
/-! What the command line lists, as JSON. -/
namespace Galley

def Token.json (t : Token) : Json := .object [
  ("kind", .string t.kind.name), ("operand", .string t.operand), ("offset", .int t.offset)]

def Anchor.json (a : Anchor) : Json := .object [("page", .int a.page), ("v", .int a.v)]

def Outline.Node.json (n : Outline.Node) : Json := .object [
  ("title", .string n.title), ("target", .string n.target), ("level", .int n.level),
  ("parent", match n.parent with
    | none => .null
    | some p => .int p),
  ("children", .array (n.children.map fun i : Nat => .int i))]

def Outline.json (o : Outline) : Json := .object [
  ("nodes", .array (o.nodes.toList.map Node.json)), ("roots", .array (o.roots.map fun i : Nat => .int i))]

def Rgb.json (c : Rgb) : Json := .sorted [("r", .int c.r), ("g", .int c.g), ("b", .int c.b)]

def Target.json : Option Target → Json
  | none => .null
  | some (.uri s) => .object [("Uri", .string s)]
  | some (.destination s) => .object [("Destination", .string s)]

namespace Canvas

def Point.json (p : Point Float) : Json := .sorted [("x", .float p.x), ("y", .float p.y)]

def Transform.json (t : Transform Float) : Json := .sorted [
  ("a", .float t.a), ("b", .float t.b), ("c", .float t.c), ("d", .float t.d), ("e", .float t.e),
  ("f", .float t.f)]

def FontSpec.json (font : FontSpec Float) : Json := .sorted [
  ("style", .sorted [
    ("family", .string font.style.family), ("weight", .string font.style.weight.name),
    ("slant", .string font.style.slant.name)]),
  ("size", .float font.size)]

def Pen.json (p : Pen Float) : Json := .sorted [
  ("colour", p.colour.json), ("width", .float p.width), ("cap", .string p.cap.name),
  ("join", .string p.join.name)]

def Call.json : Call Float → Json
  | .beginPage w h => .object [("BeginPage", .sorted [("width", .float w), ("height", .float h)])]
  | .endPage => .string "EndPage"
  | .setTransform t => .object [("SetTransform", t.json)]
  | .beginPath => .string "BeginPath"
  | .moveTo p => .object [("MoveTo", p.json)]
  | .lineTo p => .object [("LineTo", p.json)]
  | .arc centre radius start stop anticlockwise => .object [("Arc", .sorted [
    ("centre", centre.json), ("radius", .float radius), ("start", .float start),
    ("end", .float stop), ("anticlockwise", .bool anticlockwise)])]
  | .ellipse centre rx ry => .object [("Ellipse", .sorted [
    ("centre", centre.json), ("rx", .float rx), ("ry", .float ry)])]
  | .bezierTo c1 c2 p => .object [("BezierTo", .array [c1.json, c2.json, p.json])]
  | .closePath => .string "ClosePath"
  | .stroke pen => .object [("Stroke", pen.json)]
  | .fill colour => .object [("Fill", colour.json)]
  | .fillText text origin font colour => .object [("FillText", .sorted [
    ("text", .string text), ("at", origin.json), ("font", font.json), ("colour", colour.json)])]

def Rect.json (r : Rect Float) : Json := .sorted [
  ("left", .float r.left), ("top", .float r.top), ("right", .float r.right),
  ("bottom", .float r.bottom)]

def Hotspot.json (s : Hotspot Float) : Json := .sorted [
  ("page", .int s.page), ("rect", s.rect.json), ("target", Target.json s.target),
  ("border", .array (s.border.map .float)), ("colour", .array (s.colour.map .float)),
  ("raw", .string s.raw)]

def Hotspot.display (s : Hotspot Float) : String :=
  "hotspot " ++ spaced [s.rect.left, s.rect.top, s.rect.right, s.rect.bottom] ++ " " ++ s.raw

end Canvas

end Galley
