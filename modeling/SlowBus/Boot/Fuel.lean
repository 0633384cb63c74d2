import SlowBus.Boot.Readers
import Mathlib.Data.List.Forall2

/-!
# More fuel

Fuel bounds how deep `cbor_skip` goes. What a reader does when it does not run out of fuel it
does with more as well.
-/

namespace SlowBus.Boot

open Prog
open Cbor (Octets)

section Fuel

variable {ε α : Type} {mem : Mem} {fuel fuel' : Nat}

theorem Refines.ite {p : Prop} [Decidable p] {m m' m₁ m₁' : Decode ε α} (hm : Refines m m')
    (hm₁ : Refines m₁ m₁') : Refines (if p then m else m₁) (if p then m' else m₁') := by
  split
  next => exact hm
  next => exact hm₁

theorem cborSkip_refines (h : fuel ≤ fuel') : Refines (cborSkip mem fuel) (cborSkip mem fuel') := by
  induction fuel generalizing fuel' with
  | zero => exact .spent
  | succ fuel ih =>
      obtain ⟨fuel', rfl⟩ := Nat.exists_eq_add_of_le' (Nat.one_le_of_lt h)
      have hskip := ih (Nat.le_of_succ_le_succ h)
      refine (Prog.Refines.refl _).bind fun x => ?_
      exact Refines.ite (.refl _) <| Refines.ite (.refl _) <|
        Refines.ite (.loop (fun _ _ => hskip) _ _ _) <|
        Refines.ite (.loop (fun _ _ => hskip) _ _ _) (.refl _)

theorem skipValue_refines (h : fuel ≤ fuel') (e : α → ε) (acc : α) :
    Refines (skipValue mem fuel e acc) (skipValue mem fuel' e acc) :=
  (cborSkip_refines h).mapFail.bind fun _ => .refl _

/-- The same keys, and for each what does the same with more fuel. -/
def KeysRefine (keys keys' : Keys ε α) : Prop :=
  List.Forall₂ (fun x x' => x.1 = x'.1 ∧ ∀ acc, Refines (x.2 acc) (x'.2 acc)) keys keys'

theorem KeysRefine.refl (keys : Keys ε α) : KeysRefine keys keys :=
  List.forall₂_same.mpr fun _ _ => ⟨rfl, fun _ => .refl _⟩

theorem onKey_refines {other other' : α → Decode ε α} {keys keys' : Keys ε α} {k : Slice} {acc : α}
    (hother : Refines (other acc) (other' acc)) (hkeys : KeysRefine keys keys') :
    Refines (onKey mem k other keys acc) (onKey mem k other' keys' acc) := by
  induction hkeys with
  | nil => exact hother
  | cons hx _ ih =>
      unfold onKey
      rw [hx.1]
      exact (Prog.Refines.refl _).bind fun hit => Refines.ite (hx.2 acc) ih

theorem readPairs_refines (h : fuel ≤ fuel') {keys keys' : Keys ε α}
    (hkeys : KeysRefine keys keys') (e : α → ε) (acc : α) :
    Refines (readPairs mem fuel e keys acc) (readPairs mem fuel' e keys' acc) :=
  (Prog.Refines.refl _).bind fun _ => .loop (fun _ acc => (Prog.Refines.refl _).bind fun _ =>
    onKey_refines (skipValue_refines h e acc) hkeys) _ _ _

/-! ## The readers -/

theorem parseIdentity_refines (h : fuel ≤ fuel') {chip : Nat} {board : Vector (BitVec 8) 8}
    {out : Identity} : Refines (parseIdentity mem fuel chip board out)
      (parseIdentity mem fuel' chip board out) :=
  ((readPairs_refines h (.refl _) _ _).bind fun _ => .refl _).mapFail

theorem parseRoster_refines (h : fuel ≤ fuel') :
    Refines (parseRoster mem fuel) (parseRoster mem fuel') := by
  have hslave : ∀ l, Refines (rosterSlave mem fuel l) (rosterSlave mem fuel' l) := fun l =>
    (Prog.Refines.refl _).bind fun _ => Refines.ite (.refl _) <|
      (Prog.Refines.refl _).bind fun _ => (Prog.Refines.refl _).bind fun _ =>
      (Prog.Refines.refl _).bind fun _ =>
        (Refines.loop (fun _ _ => (cborSkip_refines h).mapFail) _ _ _).bind fun _ => .refl _
  have hslaves : ∀ l, Refines (rosterSlaves mem fuel l) (rosterSlaves mem fuel' l) := fun l =>
    (Prog.Refines.refl _).bind fun _ => .loop (fun _ l => hslave l) _ _ _
  have hsame : ∀ set, ∀ l, Refines (uintInto mem RosterLocals.badFormat set l)
      (uintInto mem RosterLocals.badFormat set l) := fun _ _ => .refl _
  have hkeys : KeysRefine (rosterKeys mem fuel) (rosterKeys mem fuel') :=
    .cons ⟨rfl, hsame _⟩ <| .cons ⟨rfl, hsame _⟩ <| .cons ⟨rfl, hsame _⟩ <|
      .cons ⟨rfl, hsame _⟩ <| .cons ⟨rfl, hsame _⟩ <| .cons ⟨rfl, hslaves⟩ .nil
  exact (readPairs_refines h hkeys _ _).bind fun _ => .refl _

theorem parseHwio_refines (h : fuel ≤ fuel') :
    Refines (parseHwio mem fuel) (parseHwio mem fuel') := by
  have hchannel : ∀ j l, Refines (hwioChannel mem fuel j l) (hwioChannel mem fuel' j l) :=
    fun j l => Refines.ite ((readPairs_refines h (.refl _) _ _).bind fun _ => .refl _)
      (skipValue_refines h _ l)
  have hkeys : KeysRefine (hwioKeys mem fuel) (hwioKeys mem fuel') :=
    .cons ⟨rfl, fun _ => .refl _⟩ <| .cons ⟨rfl, fun _ => .refl _⟩ <|
      .cons ⟨rfl, fun _ => .refl _⟩ <|
      .cons ⟨rfl, fun _ => (Prog.Refines.refl _).bind fun _ => .loop hchannel _ _ _⟩ .nil
  exact ((readPairs_refines h hkeys _ _).bind fun _ => .refl _).mapFail

theorem bootParseNetcfg_refines (h : fuel ≤ fuel') :
    Refines (bootParseNetcfg mem fuel) (bootParseNetcfg mem fuel') := by
  have hap : ∀ j l, Refines (netiAp mem fuel j l) (netiAp mem fuel' j l) := fun j l =>
    Refines.ite ((readPairs_refines h (.refl _) _ _).mapFail.bind fun _ => .refl _)
      (skipValue_refines h _ l)
  have haps : ∀ l, Refines (netiAps mem fuel l) (netiAps mem fuel' l) := fun l =>
    (Prog.Refines.refl _).bind fun _ => (Prog.Refines.loop hap _ _ _).bind fun _ => .refl _
  have hkeys : KeysRefine (netiKeys mem fuel) (netiKeys mem fuel') :=
    .cons ⟨rfl, fun _ => .refl _⟩ <| .cons ⟨rfl, fun _ => .refl _⟩ <|
      .cons ⟨rfl, fun _ => .refl _⟩ <| .cons ⟨rfl, fun _ => .refl _⟩ <|
      .cons ⟨rfl, fun _ => .refl _⟩ <| .cons ⟨rfl, haps⟩ .nil
  exact (readPairs_refines h hkeys _ _).bind fun _ => .refl _

end Fuel

end SlowBus.Boot
