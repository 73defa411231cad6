import Engraver.Hardware.Bench
import Engraver.Proofs.Hardware.Handles

/-!
# One claim for many handles

The claim is kept twice, by the board and by its handle. Whatever is done to a board and its handles,
in any order, at most one handle has the claim and the board knows whether one has.
-/

namespace Engraver

namespace Board

/-- What is done to a board past all its handles. -/
inductive Intervention where
  | failInit (reason : String)
  | inject (code : Int)
  | trip (t : Trip)
  | feet (on : Bool)

def intervene (b : Board) : Intervention → Board
  | .failInit reason => { b with initFailure := some reason }
  | .inject code => { b with injected := b.injected ++ [code] }
  | .trip t => { b with trip := some t }
  | .feet on => { b with feet := on }

theorem intervene_claimed (b : Board) (x : Intervention) :
    (b.intervene x).claimed = b.claimed ∧ ((b.intervene x).IsOff ↔ b.IsOff) := by
  cases x <;> exact ⟨rfl, Iff.rfl⟩

theorem SameButFailure.intervene {before after : Board} (h : SameButFailure before after)
    (x : Intervention) : SameButFailure (before.intervene x) (after.intervene x) := by
  obtain ⟨failure, rfl⟩ := h
  cases x with
  | failInit reason => exact ⟨some reason, rfl⟩
  | _ => exact ⟨failure, rfl⟩

theorem SameButFailure.isOff {before after : Board} (h : SameButFailure before after)
    (hoff : before.IsOff) : after.IsOff := by
  obtain ⟨failure, rfl⟩ := h
  exact hoff

theorem SameButFailure.claimed {before after : Board} (h : SameButFailure before after) :
    after.claimed = before.claimed := by
  obtain ⟨failure, rfl⟩ := h
  rfl

end Board

namespace Handle

open Driver (serve)

theorem claim_cases (h : Handle) (hc : h.claimed = false) :
    (h.board.claimed = false ∧ (serve h .claim).claimed = true ∧
      (serve h .claim).board.claimed = true ∧ (Driver.claim h).1 = .ok ()) ∨
    ((serve h .claim).claimed = false ∧ h.board.SameButFailure (serve h .claim).board ∧
      (Driver.claim h).1 ≠ .ok ()) := by
  simp only [serve, Driver.claim, Handle.claim, hc, Board.claim]
  cases hf : h.board.initFailure with
  | some reason => exact .inr ⟨rfl, ⟨none, rfl⟩, by simp⟩
  | none =>
    cases hb : h.board.claimed with
    | true => exact .inr ⟨rfl, Board.SameButFailure.refl _, by simp⟩
    | false => exact .inl ⟨rfl, rfl, rfl, rfl⟩

theorem release_off (h : Handle) (hc : h.claimed = true) :
    (serve h .release).claimed = false ∧ (serve h .release).board.claimed = false ∧
      (serve h .release).board.IsOff := by
  simp [serve, Driver.release, Handle.release, hc, Board.freed, Board.IsOff]

theorem claimed_of_claim (h : Handle) (hc : h.claimed = false) :
    (serve h .claim).claimed = true ↔ (Driver.claim h).1 = .ok () := by
  rcases claim_cases h hc with ⟨-, hgot, -, hok⟩ | ⟨hgot, -, hno⟩ <;> simp [*]

theorem release_unclaimed (h : Handle) : (serve h .release).claimed = false := by
  cases hc : h.claimed with
  | true => exact (release_off h hc).1
  | false => rw [serve_unclaimed h .release hc (by simp), hc]

theorem serve_sameButFailure (h : Handle) (q : Request) (hc : h.claimed = false)
    (hq : ¬ (q = .claim ∧ (Driver.claim h).1 = .ok ())) :
    h.board.SameButFailure (serve h q).board := by
  by_cases hclaim : q = .claim
  · subst hclaim
    rcases claim_cases h hc with ⟨-, -, -, hok⟩ | ⟨-, hsame, -⟩
    · exact absurd ⟨rfl, hok⟩ hq
    · exact hsame
  · rw [serve_unclaimed h q hc hclaim]
    exact Board.SameButFailure.refl _

end Handle

namespace Bench

open Driver (serve)

/-! ## The owner of the claim -/

/-- At most one handle has the claim, the board knows whether one has, and without a claim all is off. -/
def SingleClaim (b : Bench) : Prop :=
  (∀ i j : Nat, b.handles[i]? = some (some true) → b.handles[j]? = some (some true) → i = j) ∧
  (b.board.claimed = true ↔ ∃ i : Nat, b.handles[i]? = some (some true)) ∧
  (b.board.claimed = false → b.board.IsOff)

/-- The handle with the claim, if any, is `owner`. -/
structure OwnedBy (b : Bench) (owner : Option Nat) : Prop where
  claimed : b.board.claimed = owner.isSome
  holds : ∀ i : Nat, b.handles[i]? = some (some true) ↔ owner = some i
  off : owner = none → b.board.IsOff

theorem OwnedBy.singleClaim {b : Bench} {owner : Option Nat} (h : b.OwnedBy owner) : b.SingleClaim := by
  refine ⟨?_, ?_, ?_⟩
  · intro i j hi hj
    exact Option.some.inj (((h.holds i).mp hi).symm.trans ((h.holds j).mp hj))
  · rw [h.claimed, Option.isSome_iff_exists]
    exact exists_congr fun i => (h.holds i).symm
  · intro hb
    apply h.off
    rw [h.claimed] at hb
    simpa using hb

theorem OwnedBy.set {b : Bench} {owner : Option Nat} (h : b.OwnedBy owner) {i : Nat}
    {x₀ : Option Bool} (hi : b.handles[i]? = some x₀) (board : Board) (x : Option Bool)
    {owner' : Option Nat} (hx : owner' = some i ↔ x = some true)
    (hother : ∀ j, j ≠ i → (owner' = some j ↔ owner = some j))
    (hclaimed : board.claimed = owner'.isSome) (hoff : owner' = none → board.IsOff) :
    OwnedBy ⟨board, b.handles.set i x⟩ owner' := by
  refine ⟨hclaimed, fun j => ?_, hoff⟩
  have hlt : i < b.handles.length := (List.getElem?_eq_some_iff.mp hi).1
  rw [List.getElem?_set]
  by_cases hij : i = j
  · subst hij
    simp [hlt, hx]
  · rw [if_neg hij, h.holds j, hother j (Ne.symm hij)]

theorem OwnedBy.serve {b : Bench} {owner : Option Nat} (h : b.OwnedBy owner) {i : Nat} {c : Bool}
    (hi : b.handles[i]? = some (some c)) (q : Request) :
    ∃ owner', OwnedBy ⟨(serve ⟨b.board, c⟩ q : Handle).board,
      b.handles.set i (some (serve ⟨b.board, c⟩ q : Handle).claimed)⟩ owner' := by
  cases c with
  | true =>
    obtain rfl : owner = some i := (h.holds i).mp hi
    by_cases hq : q = .release
    · subst hq
      obtain ⟨hc, hb, hoff⟩ := Handle.release_off ⟨b.board, true⟩ rfl
      exact ⟨none, h.set hi _ _ (by simp [hc]) (by simp; omega) (by simp [hb]) fun _ => hoff⟩
    · obtain ⟨hc, hb⟩ := Handle.serve_claimed ⟨b.board, true⟩ q rfl hq
      exact ⟨some i, h.set hi _ _ (by simp [hc]) (fun _ _ => Iff.rfl) (hb.trans h.claimed) (by simp)⟩
  | false =>
    have hne : owner ≠ some i := by
      intro ho
      have := (h.holds i).mpr ho
      simp [hi] at this
    by_cases hq : q = .claim
    · subst hq
      -- A claim is got only where there was no owner.
      rcases Handle.claim_cases ⟨b.board, false⟩ rfl with ⟨hfree, hc, hb, -⟩ | ⟨hc, hsame, -⟩
      · have hnone : owner = none := by
          have := h.claimed.symm.trans hfree
          simpa using this
        exact ⟨some i, h.set hi _ _ (by simp [hc]) (by simp [hnone]; omega) (by simp [hb]) (by simp)⟩
      · exact ⟨owner, h.set hi _ _ (by simp [hc, hne]) (fun _ _ => Iff.rfl)
          (hsame.claimed.trans h.claimed) fun ho => hsame.isOff (h.off ho)⟩
    · rw [Handle.serve_unclaimed ⟨b.board, false⟩ q rfl hq]
      exact ⟨owner, h.set hi _ _ (by simp [hne]) (fun _ _ => Iff.rfl) h.claimed h.off⟩

theorem OwnedBy.reaches {b : Bench} {owner : Option Nat} (h : b.OwnedBy owner) {i : Nat} {c : Bool}
    (hi : b.handles[i]? = some (some c)) {allowed : Request → Prop} {handle : Handle}
    (hr : Driver.Reaches allowed ⟨b.board, c⟩ handle) :
    ∃ owner', OwnedBy ⟨handle.board, b.handles.set i (some handle.claimed)⟩ owner' := by
  obtain ⟨hlt, hget⟩ := List.getElem?_eq_some_iff.mp hi
  refine hr.keeps (fun handle => ∃ owner', OwnedBy ⟨handle.board, b.handles.set i (some handle.claimed)⟩
    owner') ?_ ⟨owner, ?_⟩
  · rintro d q - ⟨owner', hd⟩
    simpa using hd.serve (i := i) (c := d.claimed) (by simp [hlt]) q
  · rwa [← hget, List.set_getElem_self]

theorem OwnedBy.add {b : Bench} {owner : Option Nat} (h : b.OwnedBy owner) : b.add.OwnedBy owner := by
  refine ⟨h.claimed, fun i => ?_, h.off⟩
  rw [← h.holds i, Bench.add, List.getElem?_append]
  split
  · rfl
  · rename_i hge
    rw [List.getElem?_eq_none (l := b.handles) (by omega)]
    cases i - b.handles.length <;> simp

/-! ## Any interleaving -/

/-- One thing done to a board or to one of its handles. -/
inductive Op where
  | add
  | ask (i : Nat) (q : Request)
  | drop (i : Nat)
  | intervene (x : Board.Intervention)

def Op.handle : Op → Option Nat
  | .ask i _ | .drop i => some i
  | .add | .intervene _ => none

/-- The bench after one thing is done. Nothing can be done with a handle that is not there. -/
def apply (b : Bench) : Op → Bench
  | .add => b.add
  | .ask i q => ((b.use? i fun h => ((), serve h q)).map Prod.snd).getD b
  | .drop i => (b.drop? i).getD b
  | .intervene x => { b with board := b.board.intervene x }

/-- A new board's bench after the things done, in order. -/
def after (settings : BoardSettings) (ops : List Op) : Bench :=
  ops.foldl apply ⟨{ settings }, []⟩

theorem apply_ask {b : Bench} {i : Nat} {c : Bool} (hi : b.handles[i]? = some (some c)) (q : Request) :
    b.apply (.ask i q) = ⟨(serve ⟨b.board, c⟩ q : Handle).board,
      b.handles.set i (some (serve ⟨b.board, c⟩ q : Handle).claimed)⟩ := by
  simp [apply, use?, hi]

theorem apply_drop {b : Bench} {i : Nat} {c : Bool} (hi : b.handles[i]? = some (some c)) :
    b.apply (.drop i) = ⟨(serve ⟨b.board, c⟩ .release : Handle).board, b.handles.set i none⟩ := by
  simp [apply, drop?, use?, hi, serve, Driver.release]

theorem apply_missing {b : Bench} {i : Nat} (hi : ∀ c, b.handles[i]? ≠ some (some c)) {op : Op}
    (hop : op.handle = some i) : b.apply op = b := by
  have huse {α : Type} (f : Handle → α × Handle) : b.use? i f = none := by
    unfold use?
    split
    · rename_i c hc
      exact absurd hc (hi c)
    · rfl
  cases op with
  | ask j q =>
    cases hop
    simp [apply, huse]
  | drop j =>
    cases hop
    simp [apply, drop?, huse]
  | add => cases hop
  | intervene x => cases hop

theorem keeps_of_live {P : Bench → Prop} {b : Bench} {op : Op} {i : Nat} (hb : P b) (hop : op.handle = some i)
    (hlive : ∀ c, b.handles[i]? = some (some c) → P (b.apply op)) : P (b.apply op) := by
  by_cases hi : ∃ c, b.handles[i]? = some (some c)
  · obtain ⟨c, hi⟩ := hi
    exact hlive c hi
  · rwa [apply_missing (not_exists.mp hi) hop]

theorem OwnedBy.forget {b : Bench} {owner : Option Nat} (h : b.OwnedBy owner) {i : Nat}
    (hi : b.handles[i]? = some (some false)) : OwnedBy ⟨b.board, b.handles.set i none⟩ owner := by
  have hne : owner ≠ some i := by
    rw [Ne, ← h.holds i, hi]
    simp
  exact h.set hi b.board none (by simp [hne]) (fun _ _ => Iff.rfl) h.claimed h.off

theorem OwnedBy.drop {b : Bench} {owner : Option Nat} (h : b.OwnedBy owner) {i : Nat} {c : Bool}
    (hi : b.handles[i]? = some (some c)) :
    ∃ owner', OwnedBy ⟨(Driver.serve ⟨b.board, c⟩ .release : Handle).board, b.handles.set i none⟩
      owner' := by
  obtain ⟨owner', hs⟩ := h.serve hi .release
  have hlt : i < b.handles.length := (List.getElem?_eq_some_iff.mp hi).1
  have hfree := Handle.release_unclaimed ⟨b.board, c⟩
  refine ⟨owner', ?_⟩
  simpa using hs.forget (i := i) (by simp [hlt, hfree])

theorem OwnedBy.intervene {b : Bench} {owner : Option Nat} (h : b.OwnedBy owner)
    (x : Board.Intervention) : OwnedBy ⟨b.board.intervene x, b.handles⟩ owner := by
  obtain ⟨hc, hoff⟩ := Board.intervene_claimed b.board x
  exact ⟨hc.trans h.claimed, h.holds, fun ho => hoff.mpr (h.off ho)⟩

theorem OwnedBy.apply {b : Bench} {owner : Option Nat} (h : b.OwnedBy owner) (op : Op) :
    ∃ owner', (b.apply op).OwnedBy owner' := by
  cases op with
  | add => exact ⟨owner, h.add⟩
  | intervene x => exact ⟨owner, h.intervene x⟩
  | ask i q =>
    refine keeps_of_live (P := fun b => ∃ owner', b.OwnedBy owner') ⟨owner, h⟩ rfl fun c hi => ?_
    rw [apply_ask hi]
    exact h.serve hi q
  | drop i =>
    refine keeps_of_live (P := fun b => ∃ owner', b.OwnedBy owner') ⟨owner, h⟩ rfl fun c hi => ?_
    rw [apply_drop hi]
    exact h.drop hi

theorem ownedBy_new (settings : BoardSettings) : OwnedBy ⟨{ settings }, []⟩ none :=
  ⟨rfl, by simp, fun _ => ⟨rfl, rfl, rfl⟩⟩

/-- However handles are made, asked and dropped, and whatever is done to the board between, at most one
handle has the claim. -/
theorem after_singleClaim (settings : BoardSettings) (ops : List Op) :
    (after settings ops).SingleClaim := by
  suffices h : ∃ owner, (after settings ops).OwnedBy owner from h.elim fun _ h => h.singleClaim
  refine List.foldlRecOn (motive := fun b => ∃ owner, b.OwnedBy owner) ops apply
    ⟨none, ownedBy_new settings⟩ ?_
  rintro b ⟨owner, h⟩ op -
  exact h.apply op

theorem apply_sameButFailure (b : Bench) (op : Op) (i : Nat) (hop : op.handle = some i)
    (hbefore : b.handles[i]? ≠ some (some true))
    (hafter : (b.apply op).handles[i]? ≠ some (some true)) :
    b.board.SameButFailure (b.apply op).board := by
  refine keeps_of_live (P := fun b' => b.board.SameButFailure b'.board) (Board.SameButFailure.refl _) hop ?_
  rintro (_ | _) hi
  · have hlt : i < b.handles.length := (List.getElem?_eq_some_iff.mp hi).1
    cases op with
    | ask j q =>
      cases hop
      rw [apply_ask hi] at hafter ⊢
      apply Handle.serve_sameButFailure ⟨b.board, false⟩ q rfl
      rintro ⟨rfl, hok⟩
      rcases Handle.claim_cases ⟨b.board, false⟩ rfl with ⟨-, hc, -⟩ | ⟨-, -, hno⟩
      · simp [hlt, hc] at hafter
      · exact hno hok
    | drop j =>
      cases hop
      rw [apply_drop hi, Handle.serve_unclaimed ⟨b.board, false⟩ .release rfl (by simp)]
      exact Board.SameButFailure.refl _
    | add => cases hop
    | intervene x => cases hop
  · exact absurd hi hbefore

end Bench

end Engraver
