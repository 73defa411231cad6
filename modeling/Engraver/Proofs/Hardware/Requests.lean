import Mathlib.Logic.Relation
import Engraver.Hardware.Driver
import Engraver.Proofs.Motion.Stepping

/-!
# Requests to the hardware

What a machine can ask of its hardware, as data. A tape on the hardware keeps every request in order,
and a mirror shows one kind of hardware as another that answers alike.
-/

namespace Engraver

inductive Request where
  | claim
  | release
  | setMotors (on : Bool)
  | laserOff
  | readSwitches
  | home
  | execute (plan : Plan)
deriving Repr, DecidableEq

/-- Whether a request leaves the claim alone. -/
def Request.keepsClaim : Request → Bool
  | claim | release => false
  | _ => true

/-- Whether a request leaves the claim alone and runs no plan. -/
def Request.isQuiet : Request → Bool
  | execute _ => false
  | q => q.keepsClaim

/-- A 64-bit counter holds the time of the plan that is requested, if one is. -/
def Request.Fits : Request → Prop
  | execute plan => plan.Fits
  | _ => True

theorem Request.fits_of_quiet {q : Request} (hq : q.isQuiet = true) : q.Fits := by
  cases q with
  | execute plan => cases hq
  | _ => trivial

namespace Driver

variable {D E : Type} [Driver D] [Driver E]

def serve (d : D) : Request → D
  | .claim => (Driver.claim d).2
  | .release => Driver.release d
  | .setMotors on => (Driver.setMotors on d).2
  | .laserOff => Driver.laserOff d
  | .readSwitches => (Driver.readSwitches d).2
  | .home => (Driver.home d).2
  | .execute plan => (Driver.execute plan d).2

/-- The hardware is reached from other hardware by requests of the allowed kinds. -/
def Reaches (allowed : Request → Prop) : D → D → Prop :=
  Relation.ReflTransGen fun d e => ∃ q, allowed q ∧ e = serve d q

theorem Reaches.refl (allowed : Request → Prop) (d : D) : Reaches allowed d d :=
  Relation.ReflTransGen.refl

theorem Reaches.trans {allowed : Request → Prop} {c d e : D} (h : Reaches allowed c d)
    (h' : Reaches allowed d e) : Reaches allowed c e :=
  Relation.ReflTransGen.trans h h'

theorem reaches_serve {allowed : Request → Prop} (d : D) (q : Request) (hq : allowed q) :
    Reaches allowed d (serve d q) :=
  Relation.ReflTransGen.single ⟨q, hq, rfl⟩

theorem Reaches.mono {allowed more : Request → Prop} (hle : ∀ q, allowed q → more q) {d e : D}
    (h : Reaches allowed d e) : Reaches more d e := by
  induction h with
  | refl => exact Reaches.refl more d
  | tail _ hq ih =>
    obtain ⟨q, hq, rfl⟩ := hq
    exact ih.trans (reaches_serve _ q (hle q hq))

/-- What every allowed request keeps, the hardware still has in the end. -/
theorem Reaches.keeps {allowed : Request → Prop} (P : D → Prop)
    (step : ∀ d q, allowed q → P d → P (serve d q)) {d e : D} (h : Reaches allowed d e) (hd : P d) :
    P e := by
  induction h with
  | refl => exact hd
  | tail _ hq ih =>
    obtain ⟨q, hq, rfl⟩ := hq
    exact step _ q hq ih

/-- The hardware is reached from other hardware by requests that leave the claim alone, with plans that fit. -/
def Worked (d e : D) : Prop :=
  Reaches (fun q => q.keepsClaim = true ∧ q.Fits) d e

theorem worked_serve (d : D) (q : Request) (hq : q.keepsClaim = true) (hfits : q.Fits) : Worked d (serve d q) :=
  reaches_serve d q ⟨hq, hfits⟩

/-- The hardware is reached from other hardware by quiet requests. -/
def Quiet (d e : D) : Prop :=
  Reaches (fun q => q.isQuiet = true) d e

theorem quiet_serve (d : D) (q : Request) (hq : q.isQuiet = true) : Quiet d (serve d q) :=
  reaches_serve d q hq

theorem Quiet.worked {d e : D} (h : Quiet d e) : Worked d e := by
  apply Reaches.mono _ h
  intro q hq
  refine ⟨?_, Request.fits_of_quiet hq⟩
  cases q <;> first | rfl | cases hq

/-! ## Mirrors -/

/-- `f` shows hardware as other hardware that answers every request alike, but perhaps a claim. -/
structure Likeness (f : D → E) : Prop where
  release : ∀ d, Driver.release (f d) = f (Driver.release d)
  setMotors : ∀ on d, Driver.setMotors on (f d) = ((Driver.setMotors on d).1, f (Driver.setMotors on d).2)
  laserOff : ∀ d, Driver.laserOff (f d) = f (Driver.laserOff d)
  readSwitches : ∀ d, Driver.readSwitches (f d) = ((Driver.readSwitches d).1, f (Driver.readSwitches d).2)
  home : ∀ d, Driver.home (f d) = ((Driver.home d).1, f (Driver.home d).2)
  execute : ∀ plan d, Driver.execute plan (f d) = ((Driver.execute plan d).1, f (Driver.execute plan d).2)

/-- `f` shows hardware as other hardware that answers every request alike. -/
structure Mirror (f : D → E) : Prop extends Likeness f where
  claim : ∀ d, Driver.claim (f d) = ((Driver.claim d).1, f (Driver.claim d).2)

theorem Mirror.id : Mirror (id : D → D) := by
  refine ⟨?_, fun _ => rfl⟩
  constructor <;> intros <;> rfl

end Driver

/-! ## The tape -/

/-- Hardware with a tape of the requests made to it, the oldest first. -/
structure Taped (D : Type) where
  driver : D
  tape : List Request := []

namespace Taped

variable {D : Type} [Driver D]

def record (t : Taped D) (q : Request) (driver : D) : Taped D :=
  ⟨driver, t.tape ++ [q]⟩

instance : Driver (Taped D) where
  claim t := ((Driver.claim t.driver).1, t.record .claim (Driver.claim t.driver).2)
  release t := t.record .release (Driver.release t.driver)
  setMotors on t :=
    ((Driver.setMotors on t.driver).1, t.record (.setMotors on) (Driver.setMotors on t.driver).2)
  laserOff t := t.record .laserOff (Driver.laserOff t.driver)
  readSwitches t :=
    ((Driver.readSwitches t.driver).1, t.record .readSwitches (Driver.readSwitches t.driver).2)
  home t := ((Driver.home t.driver).1, t.record .home (Driver.home t.driver).2)
  execute plan t :=
    ((Driver.execute plan t.driver).1, t.record (.execute plan) (Driver.execute plan t.driver).2)

theorem mirror : Driver.Mirror (Taped.driver : Taped D → D) := by
  refine ⟨?_, fun _ => rfl⟩
  constructor <;> intros <;> rfl

theorem serve_eq (t : Taped D) (q : Request) :
    Driver.serve t q = t.record q (Driver.serve t.driver q) := by
  cases q <;> rfl

theorem tape_of_reaches {allowed : Request → Prop} {t t' : Taped D} (h : Driver.Reaches allowed t t') :
    ∃ new, t'.tape = t.tape ++ new ∧ ∀ q ∈ new, allowed q := by
  induction h with
  | refl => exact ⟨[], (List.append_nil _).symm, by simp⟩
  | tail _ hq ih =>
    obtain ⟨q, hq, rfl⟩ := hq
    obtain ⟨new, htape, hall⟩ := ih
    refine ⟨new ++ [q], ?_, ?_⟩
    · rw [serve_eq, record, htape, List.append_assoc]
    · intro q' hq'
      rcases List.mem_append.mp hq' with hmem | hmem
      · exact hall q' hmem
      · rwa [List.mem_singleton.mp hmem]

end Taped

end Engraver
