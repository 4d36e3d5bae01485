import Mathlib.Algebra.Order.Ring.Cast
import Mathlib.Data.List.Basic
import Galley.Canvas.Hotspot
import Galley.Proofs.Number.Exact
/-!
The areas of links in any order of starts, suspensions, restarts and ends. Every part of a link has
one area, in the order in which the parts were opened.
-/
namespace Galley.Canvas

/-- What a document does about links, and where. -/
inductive LinkOp where
  | start (link : Link) (h v : Rat)
  | suspend (h : Rat)
  | restart (h v : Rat)
  | stop (h : Rat)

namespace LinkOp

def closes? : LinkOp → Option Rat
  | .start _ h _ => some h
  | .suspend h => some h
  | .restart _ _ => none
  | .stop h => some h

def IsSuspend : LinkOp → Prop
  | .suspend _ => True
  | _ => False

end LinkOp

namespace Links

def take (s : Links Rat) : LinkOp → Links Rat
  | .start link h v => s.start link h v
  | .suspend h => s.suspend h
  | .restart h v => s.restart h v
  | .stop h => s.stop h

def takeAll (s : Links Rat) (ops : List LinkOp) : Links Rat := ops.foldl take s

end Links

/-! What a history says, without regard to how it is tracked. -/

mutual

/-- After some operations, the next one opens a part of a link. -/
inductive Opens : List LinkOp → LinkOp → OpenLink Rat → Prop
  | start {before : List LinkOp} {link : Link} {h v : Rat} :
      Opens before (.start link h v) ⟨link, h, v⟩
  | restart {before : List LinkOp} {link : Link} {h v : Rat} (hs : Suspended before link) :
      Opens before (.restart h v) ⟨link, h, v⟩

/-- A part was opened, and nothing has closed it since. -/
inductive Open : List LinkOp → OpenLink Rat → Prop
  | since {before after : List LinkOp} {op : LinkOp} {o : OpenLink Rat}
      (ho : Opens before op o) (hafter : ∀ x ∈ after, x.closes? = none) :
      Open (before ++ op :: after) o

/-- A link was open when it was suspended, and there was no start, end or restart since. -/
inductive Suspended : List LinkOp → Link → Prop
  | since {before after : List LinkOp} {h : Rat} {o : OpenLink Rat}
      (ho : Open before o) (hafter : ∀ x ∈ after, x.IsSuspend) :
      Suspended (before ++ .suspend h :: after) o.link

end

/-- Where a part that is open before some operations is closed, given where the page ends. -/
def closedAt (last : Rat) (after : List LinkOp) : Rat :=
  (after.findSome? LinkOp.closes?).getD last

theorem closedAt_cons (last : Rat) (op : LinkOp) (after : List LinkOp) :
    closedAt last (op :: after) = op.closes?.getD (closedAt last after) := by
  rw [closedAt, List.findSome?_cons]
  cases op.closes? <;> rfl

structure Hotspot.Covers (spot : Hotspot Rat) (page : Nat) (o : OpenLink Rat) (stop : Rat) :
    Prop where
  page : spot.page = page
  target : spot.target = o.link.target
  border : spot.border = o.link.border
  colour : spot.colour = o.link.colour
  raw : spot.raw = o.link.raw
  ordered : spot.rect.left ≤ spot.rect.right
  ends : spot.rect.left = o.left ∧ spot.rect.right = stop ∨
    spot.rect.left = stop ∧ spot.rect.right = o.left
  top : spot.rect.top = o.v - |(o.link.rise : Rat)|
  bottom : spot.rect.bottom = o.v + |(o.link.drop : Rat)|

/-- The areas of the parts that operations open, one for each in turn. -/
inductive Areas (page : Nat) (last : Rat) : List LinkOp → List LinkOp → List (Hotspot Rat) → Prop
  | nil {before : List LinkOp} : Areas page last before [] []
  | opened {before after : List LinkOp} {op : LinkOp} {o : OpenLink Rat} {spot : Hotspot Rat}
      {spots : List (Hotspot Rat)} (ho : Opens before op o)
      (hspot : spot.Covers page o (closedAt last after))
      (h : Areas page last (before ++ [op]) after spots) :
      Areas page last before (op :: after) (spot :: spots)
  | unopened {before after : List LinkOp} {op : LinkOp} {spots : List (Hotspot Rat)}
      (ho : ∀ o, ¬ Opens before op o) (h : Areas page last (before ++ [op]) after spots) :
      Areas page last before (op :: after) spots

theorem OpenLink.covers_hotspot (o : OpenLink Rat) (page : Nat) (stop : Rat) :
    (o.hotspot page stop).Covers page o stop where
  page := rfl
  target := rfl
  border := rfl
  colour := rfl
  raw := rfl
  ordered := by
    simp only [OpenLink.hotspot, min_rat, max_rat]
    exact min_le_max
  ends := by
    simp only [OpenLink.hotspot, min_rat, max_rat]
    rcases le_total o.left stop with h | h
    · exact .inl ⟨min_eq_left h, max_eq_right h⟩
    · exact .inr ⟨min_eq_right h, max_eq_left h⟩
  top := by simp [OpenLink.hotspot, Nat.cast_natAbs]
  bottom := by simp [OpenLink.hotspot, Nat.cast_natAbs]

/-! Histories with one more operation. -/

theorem concat_eq_append_cons {α : Type} {xs before after : List α} {x y : α}
    (h : xs ++ [x] = before ++ y :: after) :
    (xs = before ∧ x = y ∧ after = []) ∨ ∃ r, after = r ++ [x] ∧ xs = before ++ y :: r := by
  obtain rfl | ⟨r, z, rfl⟩ := List.eq_nil_or_concat' after
  · obtain ⟨rfl, hx⟩ := List.append_inj' h rfl
    exact .inl ⟨rfl, by simpa using hx, rfl⟩
  · rw [← List.cons_append, ← List.append_assoc] at h
    obtain ⟨rfl, hx⟩ := List.append_inj' h rfl
    obtain rfl : x = z := by simpa using hx
    exact .inr ⟨r, rfl, rfl⟩

theorem open_concat_iff {ops : List LinkOp} {op : LinkOp} {o : OpenLink Rat} :
    Open (ops ++ [op]) o ↔ Opens ops op o ∨ op.closes? = none ∧ Open ops o := by
  constructor
  · intro h
    generalize hx : ops ++ [op] = xs at h
    cases h with
    | since ho hafter =>
      obtain ⟨rfl, rfl, -⟩ | ⟨r, rfl, rfl⟩ := concat_eq_append_cons hx
      · exact .inl ho
      · rw [List.forall_mem_append, List.forall_mem_singleton] at hafter
        exact .inr ⟨hafter.2, .since ho hafter.1⟩
  · rintro (ho | ⟨hop, h⟩)
    · exact .since ho (by simp)
    · cases h with
      | since ho hafter =>
        rw [List.append_assoc, List.cons_append]
        exact .since ho (List.forall_mem_append.mpr ⟨hafter, List.forall_mem_singleton.mpr hop⟩)

theorem suspended_concat_iff {ops : List LinkOp} {op : LinkOp} {link : Link} :
    Suspended (ops ++ [op]) link ↔
      op.IsSuspend ∧ ((∃ o, Open ops o ∧ o.link = link) ∨ Suspended ops link) := by
  constructor
  · intro h
    generalize hx : ops ++ [op] = xs at h
    cases h with
    | since ho hafter =>
      obtain ⟨rfl, rfl, -⟩ | ⟨r, rfl, rfl⟩ := concat_eq_append_cons hx
      · exact ⟨trivial, .inl ⟨_, ho, rfl⟩⟩
      · rw [List.forall_mem_append, List.forall_mem_singleton] at hafter
        exact ⟨hafter.2, .inr (.since ho hafter.1)⟩
  · rintro ⟨hop, ⟨o, ho, rfl⟩ | h⟩
    · cases op with
      | suspend h => exact .since ho (by simp)
      | _ => exact hop.elim
    · cases h with
      | since ho hafter =>
        rw [List.append_assoc, List.cons_append]
        exact .since ho (List.forall_mem_append.mpr ⟨hafter, List.forall_mem_singleton.mpr hop⟩)

theorem not_open_nil (o : OpenLink Rat) : ¬ Open [] o := by
  intro h
  generalize hx : ([] : List LinkOp) = xs at h
  cases h
  simp at hx

theorem not_suspended_nil (link : Link) : ¬ Suspended [] link := by
  intro h
  generalize hx : ([] : List LinkOp) = xs at h
  cases h
  simp at hx

theorem opens_iff {ops : List LinkOp} {op : LinkOp} {o : OpenLink Rat} :
    Opens ops op o ↔ match op with
      | .start link h v => o = ⟨link, h, v⟩
      | .restart h v => ∃ link, Suspended ops link ∧ o = ⟨link, h, v⟩
      | _ => False := by
  constructor
  · intro h
    cases h with
    | start => rfl
    | restart hs => exact ⟨_, hs, rfl⟩
  · intro h
    cases op with
    | start link h v =>
      obtain rfl := h
      exact .start
    | restart h v =>
      obtain ⟨link, hs, rfl⟩ := h
      exact .restart hs
    | suspend | stop => exact h.elim

/-! The tracker. -/

namespace Links

theorem closed_close (s : Links Rat) (h : Rat) :
    (s.close h).closed.reverse =
      s.closed.reverse ++ (s.current.map (·.hotspot s.page h)).toList := by
  rw [close]
  cases s.current <;> simp

theorem current_suspend (s : Links Rat) (h : Rat) : (s.suspend h).current = none := by
  rw [suspend]
  cases hc : s.current with
  | none => exact hc
  | some o => simp [close, hc]

theorem suspended_suspend (s : Links Rat) (h : Rat) :
    (s.suspend h).suspended = (s.current.map OpenLink.link).or s.suspended := by
  rw [suspend]
  cases s.current <;> rfl

theorem current_stop (s : Links Rat) (h : Rat) : (s.stop h).current = none := by
  rw [stop, close]
  cases hc : s.current with
  | none => exact hc
  | some o => rfl

theorem current_restart (s : Links Rat) (h v : Rat) :
    (s.restart h v).current = (s.suspended.map (OpenLink.mk · h v)).or s.current := by
  rw [restart]
  cases s.suspended <;> rfl

theorem suspended_restart (s : Links Rat) (h v : Rat) : (s.restart h v).suspended = none := by
  rw [restart]
  cases hl : s.suspended with
  | none => exact hl
  | some link => rfl

theorem page_take (s : Links Rat) (op : LinkOp) : (s.take op).page = s.page := by
  cases op <;> simp only [take, start, suspend, restart, stop, close] <;> split <;> rfl

theorem closed_take (s : Links Rat) (op : LinkOp) :
    (s.take op).closed.reverse =
      s.closed.reverse ++ (op.closes?.bind fun h => s.current.map (·.hotspot s.page h)).toList := by
  cases op with
  | start link h v => exact s.closed_close h
  | suspend h =>
    rw [LinkOp.closes?, Option.bind_some, ← closed_close, take, suspend]
    cases hc : s.current with
    | none => simp [close, hc]
    | some o => rfl
  | restart h v =>
    rw [LinkOp.closes?, take, restart]
    cases s.suspended <;> simp
  | stop h => exact s.closed_close h

structure Tracks (s : Links Rat) (page : Nat) (ops : List LinkOp) : Prop where
  page : s.page = page
  current : ∀ o, Open ops o ↔ s.current = some o
  suspended : ∀ link, Suspended ops link ↔ s.suspended = some link
  apart : s.current = none ∨ s.suspended = none

theorem tracks_ofPage (page : Nat) : (ofPage page).Tracks page [] where
  page := rfl
  current o := by simp [ofPage, not_open_nil]
  suspended link := by simp [ofPage, not_suspended_nil]
  apart := .inl rfl

theorem Tracks.take {s : Links Rat} {page : Nat} {ops : List LinkOp} (hs : s.Tracks page ops)
    (op : LinkOp) : (s.take op).Tracks page (ops ++ [op]) := by
  refine ⟨(s.page_take op).trans hs.page, fun o => ?_, fun link => ?_, ?_⟩
  · rw [open_concat_iff, opens_iff, hs.current]
    cases op with
    | start link h v => simp [Links.take, Links.start, LinkOp.closes?, eq_comm]
    | suspend h => simp [Links.take, current_suspend, LinkOp.closes?]
    | restart h v =>
      simp only [Links.take, current_restart, LinkOp.closes?, hs.suspended]
      cases hl : s.suspended with
      | none => simp
      | some link =>
        have hc : s.current = none := hs.apart.resolve_right (by simp [hl])
        simp [hc, eq_comm]
    | stop h => simp [Links.take, current_stop, LinkOp.closes?]
  · simp only [suspended_concat_iff, hs.current, hs.suspended]
    cases op with
    | start link h v => simp [Links.take, Links.start, LinkOp.IsSuspend]
    | suspend h =>
      simp only [Links.take, suspended_suspend, LinkOp.IsSuspend, true_and]
      cases hc : s.current with
      | none => simp
      | some o =>
        have hl : s.suspended = none := hs.apart.resolve_left (by simp [hc])
        simp [hl]
    | restart h v => simp [Links.take, suspended_restart, LinkOp.IsSuspend]
    | stop h => simp [Links.take, Links.stop, LinkOp.IsSuspend]
  · cases op with
    | start | stop => exact .inr rfl
    | suspend h => exact .inl (current_suspend s h)
    | restart h v => exact .inr (suspended_restart s h v)

theorem Tracks.takeAll {s : Links Rat} {page : Nat} {before : List LinkOp}
    (hs : s.Tracks page before) (after : List LinkOp) :
    (s.takeAll after).Tracks page (before ++ after) := by
  induction after generalizing s before with
  | nil => rwa [List.append_nil]
  | cons op after ih =>
    rw [List.append_cons]
    exact ih (hs.take op)

theorem Tracks.finish_takeAll {s : Links Rat} {page : Nat} {before : List LinkOp}
    (hs : s.Tracks page before) (last : Rat) (after : List LinkOp) :
    ∃ spots, (s.takeAll after).finish last =
        s.closed.reverse ++ (s.current.map (·.hotspot page (closedAt last after))).toList ++ spots ∧
      Areas page last before after spots := by
  induction after generalizing s before with
  | nil =>
    refine ⟨[], ?_, .nil⟩
    rw [List.append_nil, ← hs.page]
    exact s.closed_close last
  | cons op after ih =>
    obtain ⟨spots, hfinish, hareas⟩ := ih (hs.take op)
    rw [Links.takeAll, List.foldl_cons, ← Links.takeAll, hfinish, closed_take, hs.page, closedAt_cons]
    cases op with
    | start link h v =>
      refine ⟨_ :: spots, ?_, .opened .start (OpenLink.covers_hotspot _ page _) hareas⟩
      simp [Links.take, Links.start, LinkOp.closes?]
    | suspend h =>
      refine ⟨spots, ?_, .unopened (by simp [opens_iff]) hareas⟩
      simp [Links.take, current_suspend, LinkOp.closes?]
    | restart h v =>
      simp only [Links.take, current_restart, LinkOp.closes?]
      cases hl : s.suspended with
      | none =>
        refine ⟨spots, by simp, .unopened (fun o ho => ?_) hareas⟩
        obtain ⟨link, hlink, -⟩ := opens_iff.mp ho
        simp [hs.suspended, hl] at hlink
      | some link =>
        have hc : s.current = none := hs.apart.resolve_right (by simp [hl])
        refine ⟨_ :: spots, ?_, .opened (.restart ((hs.suspended link).mpr hl))
          (OpenLink.covers_hotspot _ page _) hareas⟩
        simp [hc]
    | stop h =>
      refine ⟨spots, ?_, .unopened (by simp [opens_iff]) hareas⟩
      simp [Links.take, current_stop, LinkOp.closes?]

end Links

/-- At any time a link is open or suspended just if the operations so far say so, and never both.
At the end of the page each part of a link that was opened has one area, in the order of opening,
from where it was opened to where it was closed. -/
theorem areas_of_links (page : Nat) (ops : List LinkOp) (last : Rat) :
    (∀ before, before <+: ops →
      let s := (Links.ofPage page).takeAll before
      (∀ o, s.current = some o ↔ Open before o) ∧
      (∀ link, s.suspended = some link ↔ Suspended before link) ∧
      (s.current = none ∨ s.suspended = none)) ∧
    Areas page last [] ops (((Links.ofPage page).takeAll ops).finish last) := by
  constructor
  · intro before _ s
    have hs : s.Tracks page before := (Links.tracks_ofPage page).takeAll before
    exact ⟨fun o => (hs.current o).symm, fun link => (hs.suspended link).symm, hs.apart⟩
  · obtain ⟨spots, hfinish, hareas⟩ := (Links.tracks_ofPage page).finish_takeAll last ops
    rw [hfinish]
    exact hareas

end Galley.Canvas
