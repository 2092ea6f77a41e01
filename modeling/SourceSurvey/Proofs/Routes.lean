import SourceSurvey.Disk.Basic

/-! Routes along links. A route over some segments goes on with the segments behind them from where
they lead, and a link at the very end is what a look and a route differ by. Where a map carries one
routing into another, it carries their routes; where there is no link, a route takes one step after
the other. -/

namespace SourceSurvey

theorem bind_eq_ok_iff {α β : Type} {x : Except DiskFault α} {f : α → Except DiskFault β} {b : β} :
    x >>= f = .ok b ↔ ∃ a, x = .ok a ∧ f a = .ok b := by
  cases x <;> simp [bind, Except.bind]

namespace Routing

variable {σ τ : Type} {r : Routing σ} {s : Routing τ} {stays : Bool} {links : Nat}
  {here next there : σ} {segment : Text} {segments rest : List Text}

/-! ### One segment -/

/-- Goes on at a link: what it leads to is followed with the segments behind it. -/
def turn (r : Routing σ) (stays : Bool) (here : σ) (target : Text) (rest : List Text) :
    Nat → Except DiskFault (σ × Nat)
  | 0 => .error .tooManyLinks
  | links + 1 =>
    if target = [] then .error .missing
    else r.follow stays links (r.start here target) (Path.segments target ++ rest)

theorem follow_nil : r.follow stays links here [] = .ok (here, links) := by
  cases links <;> rfl

theorem follow_cons : r.follow stays links here (segment :: rest) =
    r.step here segment >>= fun next =>
      match r.target? next with
      | none => r.follow stays links next rest
      | some target =>
        if stays && rest.isEmpty then .ok (next, links)
        else r.turn stays here target rest links := by
  cases links <;> rfl

theorem follow_cons_of_error {fault : DiskFault} (h : r.step here segment = .error fault) :
    r.follow stays links here (segment :: rest) = .error fault := by
  rw [follow_cons, h]
  rfl

theorem follow_cons_of_none (h : r.step here segment = .ok next) (ht : r.target? next = none) :
    r.follow stays links here (segment :: rest) = r.follow stays links next rest := by
  rw [follow_cons, h]
  simp only [bind, Except.bind, ht]

theorem follow_one (h : r.step here segment = .ok next) (ht : r.target? next = none) :
    r.follow stays links here [segment] = .ok (next, links) := by
  rw [follow_cons_of_none h ht, follow_nil]

theorem follow_cons_of_some {target : Text} (h : r.step here segment = .ok next)
    (ht : r.target? next = some target) : r.follow stays links here (segment :: rest) =
      if stays && rest.isEmpty then .ok (next, links) else r.turn stays here target rest links := by
  rw [follow_cons, h]
  simp only [bind, Except.bind, ht]

/-- What leads somewhere goes on from the next place, ends there at a link that may stay, or goes on
from the target of that link with one link less. -/
theorem follow_cons_eq_ok {left : Nat}
    (h : r.follow stays links here (segment :: rest) = .ok (there, left)) :
    ∃ next, r.step here segment = .ok next ∧
      ((r.target? next = none ∧ r.follow stays links next rest = .ok (there, left)) ∨
        (stays = true ∧ next = there) ∨
        ∃ target fewer, r.target? next = some target ∧ target ≠ [] ∧ links = fewer + 1 ∧
          r.follow stays fewer (r.start here target) (Path.segments target ++ rest) =
            .ok (there, left)) := by
  cases hs : r.step here segment with
  | error fault => exact absurd h (by simp [follow_cons_of_error hs])
  | ok next =>
    refine ⟨next, rfl, ?_⟩
    cases ht : r.target? next with
    | none => exact .inl ⟨rfl, follow_cons_of_none hs ht ▸ h⟩
    | some target =>
      rw [follow_cons_of_some hs ht] at h
      split at h
      · next last =>
        exact .inr (.inl ⟨(Bool.and_eq_true_iff.mp last).1, (Prod.mk.inj (Except.ok.inj h)).1⟩)
      · cases links with
        | zero => exact absurd h (by simp [turn])
        | succ fewer =>
          rw [turn] at h
          split at h
          · exact absurd h (by simp)
          · next led_on => exact .inr (.inr ⟨target, fewer, rfl, led_on, rfl, h⟩)

/-- What holds of routes holds of all if it holds along the segments that are left at a step, and
along any segments with one link less. -/
theorem induction {motive : Nat → List Text → Prop} (nil : ∀ links, motive links [])
    (cons : ∀ links segment rest, motive links rest →
      (∀ fewer segments, links = fewer + 1 → motive fewer segments) →
      motive links (segment :: rest)) (links : Nat) (segments : List Text) :
    motive links segments := by
  induction links generalizing segments with
  | zero =>
    induction segments with
    | nil => exact nil 0
    | cons segment rest ih => exact cons 0 segment rest ih fun _ _ h => absurd h (by simp)
  | succ links ihl =>
    induction segments with
    | nil => exact nil _
    | cons segment rest ih =>
      exact cons _ segment rest ih fun fewer segments h => Nat.succ.inj h ▸ ihl segments

/-! ### Routes one behind the other -/

/-- A route over appended segments goes on from where the first ones lead, with the links that are
left. -/
theorem follow_append (hr : stays = true → rest ≠ []) :
    r.follow stays links here (segments ++ rest) =
      r.follow false links here segments >>= fun led => r.follow stays led.2 led.1 rest := by
  induction links, segments using Routing.induction generalizing here with
  | nil links =>
    rw [List.nil_append, follow_nil]
    rfl
  | cons links segment segments ih turned =>
    rw [List.cons_append]
    cases hs : r.step here segment with
    | error fault =>
      rw [follow_cons_of_error hs, follow_cons_of_error hs]
      rfl
    | ok next =>
      cases ht : r.target? next with
      | none => rw [follow_cons_of_none hs ht, follow_cons_of_none hs ht, ih]
      | some target =>
        have goes : (stays && (segments ++ rest).isEmpty) = false := by
          cases stays <;> simp_all
        rw [follow_cons_of_some hs ht, follow_cons_of_some hs ht, goes]
        cases links with
        | zero => rfl
        | succ fewer =>
          simp only [Bool.false_eq_true, if_false, Bool.false_and, turn]
          split
          · rfl
          · rw [← List.append_assoc, turned fewer _ rfl]

/-- A look goes where the route goes, unless it ends at a link. -/
theorem exists_follow_true {led : Nat} (h : r.follow false links here segments = .ok (there, led)) :
    ∃ next left, r.follow true links here segments = .ok (next, left) ∧
      (r.target? next = none → next = there) := by
  induction links, segments using Routing.induction generalizing here with
  | nil links =>
    rw [follow_nil] at h ⊢
    exact ⟨here, links, rfl, fun _ => (Prod.mk.inj (Except.ok.inj h)).1⟩
  | cons links segment rest ih turned =>
    obtain ⟨next, one, on | ⟨stays, -⟩ | ⟨target, fewer, ht, led_on, rfl, on⟩⟩ :=
      follow_cons_eq_ok h
    · rw [follow_cons_of_none one on.1]
      exact ih on.2
    · exact absurd stays (by simp)
    · rw [follow_cons_of_some one ht]
      split
      · exact ⟨next, _, rfl, fun bare => absurd (bare.symm.trans ht) (by simp)⟩
      · rw [turn, if_neg led_on]
        exact turned fewer _ rfl on

/-- Where no step leads to a link, a route takes one step after the other. -/
theorem follow_of_target?_eq_none (h : ∀ here, r.target? here = none) :
    r.follow stays links here segments =
      (segments.foldlM r.step here).map fun there => (there, links) := by
  induction segments generalizing here with
  | nil => exact follow_nil
  | cons segment rest ih =>
    rw [List.foldlM_cons]
    cases hs : r.step here segment with
    | error fault => exact follow_cons_of_error hs
    | ok next => exact (follow_cons_of_none hs (h next)).trans ih

/-! ### Routes of two routings -/

/-- A map under which the places of one routing that have a property lead to places that have it,
as their images do in the other. -/
structure Maps (r : Routing σ) (s : Routing τ) (f : σ → τ) (sound : σ → Prop) : Prop where
  step : ∀ {here} segment, sound here → (r.step here segment).map f = s.step (f here) segment
  kept : ∀ {here segment next}, sound here → r.step here segment = .ok next → sound next
  target : ∀ {here}, sound here → r.target? here = s.target? (f here)
  start : ∀ {here} target, sound here →
    sound (r.start here target) ∧ f (r.start here target) = s.start (f here) target

namespace Maps

variable {f : σ → τ} {sound : σ → Prop} (m : r.Maps s f sound)

include m

/-- Routes lead to places that have the property. -/
theorem sound_of_follow {left : Nat} (hs : sound here)
    (h : r.follow stays links here segments = .ok (there, left)) : sound there := by
  induction links, segments using Routing.induction generalizing here with
  | nil links =>
    rw [follow_nil] at h
    exact (Prod.mk.inj (Except.ok.inj h)).1 ▸ hs
  | cons links segment rest ih turned =>
    obtain ⟨next, one, on | ⟨-, same⟩ | ⟨target, fewer, -, -, rfl, on⟩⟩ := follow_cons_eq_ok h
    · exact ih (m.kept hs one) on.2
    · exact same ▸ m.kept hs one
    · exact turned fewer _ rfl (m.start target hs).1 on

/-- The image of a route is the route from the image. -/
theorem follow (hs : sound here) : (r.follow stays links here segments).map (Prod.map f id) =
    s.follow stays links (f here) segments := by
  induction links, segments using Routing.induction generalizing here with
  | nil links =>
    rw [follow_nil, follow_nil]
    rfl
  | cons links segment rest ih turned =>
    have one := m.step segment hs
    cases ho : r.step here segment with
    | error fault =>
      rw [ho] at one
      rw [follow_cons_of_error ho, follow_cons_of_error one.symm]
      rfl
    | ok next =>
      rw [ho] at one
      have on := m.kept hs ho
      have same := m.target on
      cases ht : r.target? next with
      | none =>
        rw [follow_cons_of_none ho ht, follow_cons_of_none one.symm (same ▸ ht), ih on]
      | some target =>
        rw [follow_cons_of_some ho ht, follow_cons_of_some one.symm (same ▸ ht)]
        split
        · rfl
        · cases links with
          | zero => rfl
          | succ fewer =>
            obtain ⟨starts, led⟩ := m.start target hs
            rw [turn, turn]
            split
            · rfl
            · rw [turned fewer _ rfl starts, led]

end Maps

end Routing

end SourceSurvey
