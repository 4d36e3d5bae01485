import Galley.Interpreter.Basic
/-!
A device that takes calls one by one. The only call it can refuse is a resolution, and then nothing
more of the document is executed.
-/
namespace Galley.Device

/-- A device with states in `σ`: how it takes a call, and why it refuses a resolution. -/
structure Sink (σ ε : Type) where
  receive : σ → Call → σ
  refuse : σ → Resolution → Option ε

variable {σ ε : Type}

def Sink.refusal (sink : Sink σ ε) (s : σ) : Call → Option ε
  | .resolution r => sink.refuse s r
  | _ => none

/-- Makes calls up to the first that is refused. -/
def Sink.deliver (sink : Sink σ ε) (s : σ) : List Call → σ × Option ε
  | [] => (s, none)
  | c :: cs =>
    match sink.refusal s c with
    | some e => (sink.receive s c, some e)
    | none => sink.deliver (sink.receive s c) cs

def Sink.receiveAll (sink : Sink σ ε) (s : σ) (cs : List Call) : σ := cs.foldl sink.receive s

theorem Sink.deliver_append (sink : Sink σ ε) (s : σ) (cs ds : List Call) :
    sink.deliver s (cs ++ ds) =
      match sink.deliver s cs with
      | (s, some e) => (s, some e)
      | (s, none) => sink.deliver s ds := by
  induction cs generalizing s with
  | nil => rfl
  | cons c cs ih =>
    cases h : sink.refusal s c with
    | none => simp only [List.cons_append, deliver, h, ih]
    | some e => simp only [List.cons_append, deliver, h]

structure Session (σ : Type) where
  interpreter : Interpreter
  device : σ

namespace Session

def follow (sink : Sink σ ε) (s : Session σ) (p : Interpreter × List Call) :
    Session σ × Option ε :=
  let (device, e) := sink.deliver s.device p.2
  (⟨p.1, device⟩, e)

def exec (sink : Sink σ ε) (s : Session σ) (t : Token) : Session σ × Option ε :=
  s.follow sink (s.interpreter.exec t)

def finish (sink : Sink σ ε) (s : Session σ) : Session σ × Option ε :=
  s.follow sink s.interpreter.finish

/-- Executes commands up to the first whose call is refused. -/
def feed (sink : Sink σ ε) (s : Session σ) : List Token → Session σ × Option ε
  | [] => (s, none)
  | t :: ts =>
    match s.exec sink t with
    | (s, some e) => (s, some e)
    | (s, none) => s.feed sink ts

def run (sink : Sink σ ε) (s : Session σ) (ts : List Token) : Session σ × Option ε :=
  match s.feed sink ts with
  | (s, some e) => (s, some e)
  | (s, none) => s.finish sink

end Session

end Galley.Device
