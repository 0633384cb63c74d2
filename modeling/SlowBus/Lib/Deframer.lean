import Mathlib.Data.List.Basic
import Mathlib.Data.List.Induction
import Mathlib.Data.List.ReduceOption

/-!
# Frames in a stream of marked symbols

A stream in which a start symbol opens a frame and data symbols continue it. The
format says of the data symbols that follow a start symbol whether more are
expected, whether they are dropped, or what they deliver. The receiver keeps the
frame that is open. What it delivers is spelled by disjoint segments of the
stream, and a frame of the format is delivered from every state.
-/

namespace SlowBus.Deframer

inductive Symbol (α β : Type*) where
  | start (a : α)
  | data (b : β)

/-- What becomes of an open frame. -/
inductive Verdict (γ : Type*) where
  | more
  | drop
  | deliver (g : γ)

structure Format (α β γ : Type*) where
  /-- The start symbols that open a frame. -/
  accepts : α → Bool
  judge : α → List β → Verdict γ

section Receiver

variable {α β γ : Type*} (F : Format α β γ)

/-- One symbol, against the frame that is open. -/
def Format.step : Option (α × List β) → Symbol α β → Option (α × List β) × Option γ
  | _, .start a => (if F.accepts a then some (a, []) else none, none)
  | none, .data _ => (none, none)
  | some (a, bs), .data b =>
      match F.judge a (bs ++ [b]) with
      | .more => (some (a, bs ++ [b]), none)
      | .drop => (none, none)
      | .deliver g => (none, some g)

/-- A segment that delivers `g`: an accepted start symbol and data symbols. -/
def Format.Spells (g : γ) (seg : List (Symbol α β)) : Prop :=
  ∃ a bs, seg = .start a :: bs.map .data ∧ F.accepts a = true ∧ F.judge a bs = .deliver g

end Receiver

/-! ## Feeding a stream -/

section Feeding

variable {σ ι ο : Type*} (step : σ → ι → σ × Option ο)

/-- The state after a stream. -/
def feedAll (s : σ) (xs : List ι) : σ := xs.foldl (fun s x => (step s x).1) s

/-- What each symbol of a stream delivers. -/
def outputs : σ → List ι → List (Option ο)
  | _, [] => []
  | s, x :: xs => (step s x).2 :: outputs (step s x).1 xs

variable {step} {s : σ} {x : ι} {xs ys : List ι}

@[simp] theorem feedAll_nil : feedAll step s [] = s := rfl

@[simp] theorem feedAll_cons : feedAll step s (x :: xs) = feedAll step (step s x).1 xs := rfl

@[simp] theorem feedAll_append :
    feedAll step s (xs ++ ys) = feedAll step (feedAll step s xs) ys :=
  List.foldl_append ..

@[simp] theorem outputs_nil : outputs step s [] = [] := rfl

@[simp] theorem outputs_cons :
    outputs step s (x :: xs) = (step s x).2 :: outputs step (step s x).1 xs := rfl

@[simp] theorem outputs_append :
    outputs step s (xs ++ ys) = outputs step s xs ++ outputs step (feedAll step s xs) ys := by
  induction xs generalizing s with
  | nil => rfl
  | cons x xs ih => simp [ih]

@[simp] theorem length_outputs : (outputs step s xs).length = xs.length := by
  induction xs generalizing s with
  | nil => rfl
  | cons x xs ih => simp [ih]

/-- What every symbol preserves. -/
theorem feedAll_invariant {P : σ → Prop} (hstep : ∀ s x, P s → P (step s x).1) (hs : P s) :
    P (feedAll step s xs) := by
  induction xs generalizing s with
  | nil => exact hs
  | cons x xs ih => exact ih (hstep s x hs)

/-- A receiver that simulates another one symbol by symbol does so on streams. -/
theorem outputs_simulates {σ' ι' ο' : Type*} {step' : σ' → ι' → σ' × Option ο'} {P : σ → Prop}
    {abs : σ → σ'} {read : ι → ι'} {out : ο → ο'} (hstep : ∀ s x, P s → P (step s x).1)
    (hsim : ∀ s x, P s →
      step' (abs s) (read x) = (abs (step s x).1, (step s x).2.map out)) (hs : P s) :
    feedAll step' (abs s) (xs.map read) = abs (feedAll step s xs) ∧
      outputs step' (abs s) (xs.map read) = (outputs step s xs).map (Option.map out) := by
  induction xs generalizing s with
  | nil => exact ⟨rfl, rfl⟩
  | cons x xs ih =>
      have htail := ih (hstep s x hs)
      simp only [List.map_cons, feedAll_cons, outputs_cons, hsim s x hs]
      exact ⟨htail.1, congrArg _ htail.2⟩

end Feeding

/-! ## A frame is delivered from every state -/

section Delivery

variable {α β γ : Type*} {F : Format α β γ} {s : Option (α × List β)} {a : α} {b : β}
  {bs : List β} {g : γ}

@[simp] theorem step_start :
    F.step s (.start a) = (if F.accepts a then some (a, []) else none, none) := by
  cases s <;> rfl

@[simp] theorem step_closed : F.step none (.data b) = (none, none) := rfl

theorem step_open : F.step (some (a, bs)) (.data b) =
    match F.judge a (bs ++ [b]) with
    | .more => (some (a, bs ++ [b]), none)
    | .drop => (none, none)
    | .deliver g => (none, some g) := rfl

variable (F bs) in
/-- Data symbols between frames are noise. -/
theorem closed_data :
    feedAll F.step none (bs.map .data) = none ∧
      outputs F.step none (bs.map .data) = List.replicate bs.length none := by
  induction bs with
  | nil => exact ⟨rfl, rfl⟩
  | cons b bs ih => simpa [List.replicate_succ] using ih

/-- While more is expected the frame stays open. -/
theorem open_more (as : List β)
    (hmore : ∀ n, as.length < n → n ≤ (as ++ bs).length → F.judge a ((as ++ bs).take n) = .more) :
    feedAll F.step (some (a, as)) (bs.map .data) = some (a, as ++ bs) ∧
      outputs F.step (some (a, as)) (bs.map .data) = List.replicate bs.length none := by
  induction bs generalizing as with
  | nil => simp
  | cons b bs ih =>
      have hnext : F.judge a (as ++ [b]) = .more := by
        have h := hmore (as.length + 1) (by omega) (by simp)
        rwa [← List.singleton_append, ← List.append_assoc, List.take_append_of_le_length (by simp),
          List.take_of_length_le (by simp)] at h
      have htail := ih (as ++ [b]) (fun n hn hle => by
        have h := hmore n (by simp at hn; omega) (by simpa using hle)
        simpa using h)
      simp only [List.map_cons, feedAll_cons, outputs_cons, step_open, hnext]
      exact ⟨by simpa using htail.1, by simpa [List.replicate_succ] using htail.2⟩

/-- A start symbol and data symbols that deliver, whatever was open before. -/
theorem frame_delivered (haccepts : F.accepts a = true)
    (hmore : ∀ n, 0 < n → n ≤ bs.length → F.judge a (bs.take n) = .more)
    (hdeliver : F.judge a (bs ++ [b]) = .deliver g) :
    feedAll F.step s (.start a :: (bs ++ [b]).map .data) = none ∧
      outputs F.step s (.start a :: (bs ++ [b]).map .data) =
        List.replicate (bs.length + 1) none ++ [some g] := by
  have hopen := open_more (F := F) (a := a) []
    (fun n hn hle => hmore n (by simpa using hn) (by simpa using hle))
  rw [List.nil_append] at hopen
  simp only [List.map_append, feedAll_cons, outputs_cons, step_start, haccepts, if_true,
    feedAll_append, outputs_append, hopen, List.map_cons, List.map_nil, step_open, hdeliver]
  simp [List.replicate_succ]

variable (bs) in
/-- A frame with another start symbol is skipped. -/
theorem frame_skipped (haccepts : F.accepts a = false) :
    feedAll F.step s (.start a :: bs.map .data) = none ∧
      outputs F.step s (.start a :: bs.map .data) = List.replicate (bs.length + 1) none := by
  have hclosed := closed_data F bs
  simp only [feedAll_cons, outputs_cons, step_start, haccepts, Bool.false_eq_true, if_false,
    hclosed]
  simp [List.replicate_succ]

/-- A stream fed to a receiver with a frame open delivers at most one thing more
than the same stream fed to a receiver without: what completes the open frame. -/
theorem resync (s : Option (α × List β)) (xs : List (Symbol α β)) :
    ∃ stale : List γ, stale.length ≤ 1 ∧ (s = none → stale = []) ∧
      (outputs F.step s xs).reduceOption = stale ++ (outputs F.step none xs).reduceOption := by
  induction xs generalizing s with
  | nil => exact ⟨[], by simp⟩
  | cons x xs ih =>
      match x, s with
      | .start a, s => exact ⟨[], by simp⟩
      | .data b, none => exact ⟨[], by simp⟩
      | .data b, some (a, bs) =>
          simp only [outputs_cons, step_closed, step_open, List.reduceOption_cons_of_none]
          cases F.judge a (bs ++ [b]) with
          | more =>
              obtain ⟨stale, hone, _, heq⟩ := ih (some (a, bs ++ [b]))
              exact ⟨stale, hone, by simp, by simpa using heq⟩
          | drop => exact ⟨[], by simp⟩
          | deliver g => exact ⟨[g], by simp⟩

end Delivery

/-! ## What is delivered is spelled by the stream -/

/-- A stretch of a stream that ends in a delivery: symbols that took no part, and
the segment that spells what is delivered. -/
structure Catch (ι ο : Type*) where
  noise : List ι
  segment : List ι
  delivers : ο

section Soundness

variable {ι ο : Type*}

def Catch.stretch (c : Catch ι ο) : List ι := c.noise ++ c.segment

/-- Nothing is delivered before the last symbol of the segment. -/
def Catch.outputs (c : Catch ι ο) : List (Option ο) :=
  List.replicate (c.noise.length + c.segment.length - 1) none ++ [some c.delivers]

/-- The stream is cut into catches, each with a segment that spells what it
delivers, and a rest in which nothing is delivered. -/
structure Cut (Spells : ο → List ι → Prop) (xs : List ι) (outs : List (Option ο))
    (catches : List (Catch ι ο)) (rest : List ι) : Prop where
  stream : xs = catches.flatMap Catch.stretch ++ rest
  outs : outs = catches.flatMap Catch.outputs ++ List.replicate rest.length none
  spelled : ∀ c ∈ catches, Spells c.delivers c.segment

variable {Spells : ο → List ι → Prop} {xs noise seg rest : List ι} {outs : List (Option ο)}
  {catches : List (Catch ι ο)}

theorem Cut.nil : Cut Spells [] [] [] [] := ⟨rfl, rfl, by simp⟩

/-- One more symbol that delivers nothing. -/
theorem Cut.quiet (cut : Cut Spells xs outs catches rest) (x : ι) :
    Cut Spells (xs ++ [x]) (outs ++ [none]) catches (rest ++ [x]) where
  stream := by rw [← List.append_assoc, ← cut.stream]
  outs := by
    rw [List.length_append, List.length_singleton, List.replicate_succ', ← List.append_assoc,
      ← cut.outs]
  spelled := cut.spelled

/-- One more symbol that completes a segment at the end of the rest. -/
theorem Cut.complete (cut : Cut Spells xs outs catches (noise ++ seg)) {x : ι} {g : ο}
    (hspells : Spells g (seg ++ [x])) :
    Cut Spells (xs ++ [x]) (outs ++ [some g]) (catches ++ [⟨noise, seg ++ [x], g⟩]) [] where
  stream := by
    rw [List.flatMap_append, List.flatMap_singleton, List.append_nil, Catch.stretch,
      ← List.append_assoc noise, ← List.append_assoc, ← cut.stream]
  outs := by
    have hlen : noise.length + (seg ++ [x]).length - 1 = (noise ++ seg).length := by
      rw [List.length_append, List.length_append, List.length_singleton]
      omega
    rw [List.flatMap_append, List.flatMap_singleton, Catch.outputs, hlen, List.length_nil,
      List.replicate_zero, List.append_nil, ← List.append_assoc, ← cut.outs]
  spelled := by
    intro c hc
    rcases List.mem_append.mp hc with hc | hc
    · exact cut.spelled c hc
    · rw [List.mem_singleton.mp hc]
      exact hspells

end Soundness

section Soundness

variable {α β γ ι ο : Type*} {F : Format α β γ} {read : ι → Symbol α β} {out : ο → γ}
  {s s' : Option (α × List β)} {xs : List ι} {outs : List (Option ο)}

/-- The stream seen so far is cut, and the open frame is the end of the rest. The
stream is one of another alphabet, read as symbols of the format. -/
def Sound (F : Format α β γ) (read : ι → Symbol α β) (out : ο → γ) (s : Option (α × List β))
    (xs : List ι) (outs : List (Option ο)) : Prop :=
  ∃ catches rest, Cut (fun g seg => F.Spells (out g) (seg.map read)) xs outs catches rest ∧
    ∀ a bs, s = some (a, bs) → F.accepts a = true ∧
      ∃ noise seg, rest = noise ++ seg ∧ seg.map read = .start a :: bs.map .data

theorem Sound.step (h : Sound F read out s xs outs) (x : ι) (o : Option ο)
    (hstep : F.step s (read x) = (s', o.map out)) :
    Sound F read out s' (xs ++ [x]) (outs ++ [o]) := by
  obtain ⟨catches, rest, cut, hopen⟩ := h
  -- a start opens a new segment, whatever was open
  cases hread : read x with
  | start a =>
      rw [hread, step_start, Prod.mk.injEq] at hstep
      obtain ⟨rfl, hout⟩ := hstep
      rw [eq_comm, Option.map_eq_none_iff] at hout
      subst hout
      refine ⟨catches, _, cut.quiet x, fun a' bs heq => ?_⟩
      split at heq
      next haccepts =>
        cases heq
        exact ⟨haccepts, rest, [x], rfl, by simp [hread]⟩
      next => cases heq
  | data b =>
      -- data outside a segment is noise
      match s with
      | none =>
          rw [hread, step_closed, Prod.mk.injEq] at hstep
          obtain ⟨rfl, hout⟩ := hstep
          rw [eq_comm, Option.map_eq_none_iff] at hout
          subst hout
          exact ⟨catches, _, cut.quiet x, fun a bs heq => by cases heq⟩
      | some (a, bs) =>
          obtain ⟨haccepts, noise, seg, rfl, hseg⟩ := hopen a bs rfl
          have hlonger : (seg ++ [x]).map read = .start a :: (bs ++ [b]).map .data := by
            simp [hseg, hread]
          rw [hread, step_open] at hstep
          cases hjudge : F.judge a (bs ++ [b]) with
          | more =>
              rw [hjudge, Prod.mk.injEq] at hstep
              obtain ⟨rfl, hout⟩ := hstep
              rw [eq_comm, Option.map_eq_none_iff] at hout
              subst hout
              refine ⟨catches, _, cut.quiet x, fun a' bs' heq => ?_⟩
              cases heq
              exact ⟨haccepts, noise, seg ++ [x], List.append_assoc .., hlonger⟩
          | drop =>
              rw [hjudge, Prod.mk.injEq] at hstep
              obtain ⟨rfl, hout⟩ := hstep
              rw [eq_comm, Option.map_eq_none_iff] at hout
              subst hout
              exact ⟨catches, _, cut.quiet x, fun a' bs' heq => by cases heq⟩
          | deliver g =>
              rw [hjudge, Prod.mk.injEq] at hstep
              obtain ⟨rfl, hout⟩ := hstep
              rw [eq_comm, Option.map_eq_some_iff] at hout
              obtain ⟨f, rfl, rfl⟩ := hout
              exact ⟨_, _, cut.complete ⟨a, bs ++ [b], hlonger, haccepts, hjudge⟩,
                fun a' bs' heq => by cases heq⟩

/-- What a receiver that simulates the format delivers, from no open frame on, is
spelled by disjoint segments of the stream. -/
theorem sound {σ : Type*} {step : σ → ι → σ × Option ο} {P : σ → Prop}
    {abs : σ → Option (α × List β)} {s : σ} (hstep : ∀ s x, P s → P (step s x).1)
    (hsim : ∀ s x, P s → F.step (abs s) (read x) = (abs (step s x).1, (step s x).2.map out))
    (hs : P s) (hclosed : abs s = none) (xs : List ι) :
    ∃ catches rest, Cut (fun g seg => F.Spells (out g) (seg.map read)) xs (outputs step s xs)
      catches rest := by
  suffices h : Sound F read out (abs (feedAll step s xs)) xs (outputs step s xs) from
    ⟨h.choose, h.choose_spec.choose, h.choose_spec.choose_spec.1⟩
  induction xs using List.reverseRecOn with
  | nil => exact ⟨[], [], Cut.nil, fun a bs heq => by simp [hclosed] at heq⟩
  | append_singleton xs x ih =>
      rw [feedAll_append, outputs_append]
      exact ih.step x _ (hsim _ x (feedAll_invariant hstep hs))

end Soundness

end SlowBus.Deframer
