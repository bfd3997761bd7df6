import Scryd.Foundation.Run

/-!
# Sleeping until there is work

Producers add work and signal afterwards.  One consumer works until it finds
nothing, and then sleeps unless a signal has come meanwhile.  Signals do not
count: one that finds the consumer awake is kept as a single permit.
-/

namespace Scryd.Foundation

universe u

inductive ConsumerPhase where
  /-- About to look for work. -/
  | awake
  | draining
  /-- Has found nothing and is about to sleep. -/
  | drowsy
  | asleep
  | backingOff
  deriving DecidableEq

structure Workshop (Work : Type u) where
  work : Work
  permit : Bool
  /-- Producers between their addition and their signal. -/
  outstanding : Nat
  /-- A producer has died there since the consumer last found nothing. -/
  missed : Bool
  phase : ConsumerPhase

inductive WorkshopEvent (Work : Type u) where
  | produce (add : Work → Work)
  | signal
  | abandon
  | look
  /-- A look that fails. -/
  | stumble
  | consume (change : Work → Work) (last : Bool)
  | doze
  | timer

namespace Workshop

section Invariant

variable {Work : Type u} (ready : Work → Prop)

/-- A consumer that found nothing hears of the work there is, unless its signal was lost with the
producer. -/
structure Watched (shop : Workshop Work) : Prop where
  drowsy : shop.phase = .drowsy → ready shop.work →
    shop.permit = true ∨ 0 < shop.outstanding ∨ shop.missed = true
  asleep : shop.phase = .asleep → shop.permit = false ∧
    (ready shop.work → 0 < shop.outstanding ∨ shop.missed = true)

variable {ready} {shop : Workshop Work}

/-- Nothing is claimed of a consumer that is going to look. -/
theorem Watched.of_busy (notDrowsy : shop.phase ≠ .drowsy)
    (notAsleep : shop.phase ≠ .asleep) : Watched ready shop :=
  ⟨fun drowsy => absurd drowsy notDrowsy, fun asleep => absurd asleep notAsleep⟩

theorem Watched.of_draining (draining : shop.phase = .draining) : Watched ready shop := by
  refine .of_busy ?_ ?_
  · rw [draining]
    decide
  · rw [draining]
    decide

/-- Changes that do not make work leave a watched consumer watched. -/
theorem Watched.touch (watched : Watched ready shop) {work : Work}
    (idle : ready work → ready shop.work) : Watched ready { shop with work := work } :=
  ⟨fun drowsy isReady => watched.drowsy drowsy (idle isReady), fun asleep =>
    ⟨(watched.asleep asleep).1, fun isReady => (watched.asleep asleep).2 (idle isReady)⟩⟩

end Invariant

section Step

variable {Work : Type u} (ready : Work → Prop) [DecidablePred ready]

def step (shop : Workshop Work) : WorkshopEvent Work → Workshop Work
  | .produce add => { shop with work := add shop.work, outstanding := shop.outstanding + 1 }
  | .signal =>
      match shop.outstanding, shop.phase with
      | 0, _ => shop
      | left + 1, .asleep => { shop with outstanding := left, phase := .awake }
      | left + 1, _ => { shop with outstanding := left, permit := true }
  | .abandon =>
      match shop.outstanding with
      | 0 => shop
      | left + 1 => { shop with outstanding := left, missed := true }
  | .look =>
      match shop.phase with
      | .awake =>
          if ready shop.work then { shop with phase := .draining }
          else { shop with phase := .drowsy, missed := false }
      | _ => shop
  | .stumble =>
      match shop.phase with
      | .awake => { shop with phase := .backingOff }
      | _ => shop
  | .consume change last =>
      match shop.phase with
      | .draining =>
          { shop with
            work := change shop.work
            phase := if last then .awake else .draining }
      | _ => shop
  | .doze =>
      match shop.phase with
      | .drowsy =>
          if shop.permit then { shop with permit := false, phase := .awake }
          else { shop with phase := .asleep }
      | _ => shop
  | .timer =>
      match shop.phase with
      | .asleep => { shop with phase := .awake }
      | .backingOff => { shop with phase := .awake }
      | _ => shop

variable {ready} {shop : Workshop Work}

theorem Watched.step (watched : Watched ready shop) (event : WorkshopEvent Work) :
    Watched ready (shop.step ready event) := by
  obtain ⟨work, permit, outstanding, missed, phase⟩ := shop
  cases event with
  | produce add =>
      exact ⟨fun _ _ => .inr (.inl (Nat.succ_pos outstanding)), fun asleep =>
        ⟨(watched.asleep asleep).1, fun _ => .inl (Nat.succ_pos outstanding)⟩⟩
  | signal =>
      cases outstanding with
      | zero => exact watched
      | succ left =>
          cases phase with
          | asleep => exact .of_busy nofun nofun
          | drowsy => exact ⟨fun _ _ => .inl rfl, nofun⟩
          | awake => exact .of_busy nofun nofun
          | draining => exact .of_busy nofun nofun
          | backingOff => exact .of_busy nofun nofun
  | abandon =>
      cases outstanding with
      | zero => exact watched
      | succ left =>
          exact ⟨fun _ _ => .inr (.inr rfl), fun asleep =>
            ⟨(watched.asleep asleep).1, fun _ => .inr rfl⟩⟩
  | look =>
      cases phase with
      | awake =>
          by_cases isReady : ready work
          · rw [Workshop.step, if_pos isReady]
            exact .of_busy nofun nofun
          · rw [Workshop.step, if_neg isReady]
            exact ⟨fun _ found => absurd found isReady, nofun⟩
      | asleep => exact watched
      | drowsy => exact watched
      | draining => exact watched
      | backingOff => exact watched
  | stumble =>
      cases phase with
      | awake => exact .of_busy nofun nofun
      | asleep => exact watched
      | drowsy => exact watched
      | draining => exact watched
      | backingOff => exact watched
  | consume change last =>
      cases phase with
      | draining => cases last <;> exact .of_busy nofun nofun
      | awake => exact watched
      | asleep => exact watched
      | drowsy => exact watched
      | backingOff => exact watched
  | doze =>
      cases phase with
      | drowsy =>
          cases permit with
          | true => exact .of_busy nofun nofun
          | false =>
              refine ⟨nofun, fun _ => ⟨rfl, fun isReady => ?_⟩⟩
              exact (watched.drowsy rfl isReady).resolve_left Bool.false_ne_true
      | awake => exact watched
      | asleep => exact watched
      | draining => exact watched
      | backingOff => exact watched
  | timer =>
      cases phase with
      | asleep => exact .of_busy nofun nofun
      | backingOff => exact .of_busy nofun nofun
      | awake => exact watched
      | drowsy => exact watched
      | draining => exact watched

end Step

end Workshop

end Scryd.Foundation
