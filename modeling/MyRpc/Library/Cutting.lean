import Mathlib

/-!
# Incremental parsing

A cutter looks at the bytes buffered so far and either asks for more, cuts
one item off the front, or fails.  The two laws of a `Cutter` say that its
answer, once given, does not depend on what arrives later.  They are all that
is needed for a receiver that appends each arrival and cuts until no item is
left: what it delivers is a function of the whole stream (`feedAll_eq_drain`),
so two ways of splitting one stream into arrivals cannot be told apart.
-/

namespace Cutting

variable {α β ε : Type*}

/-- One answer of a cutter. -/
inductive Cut (α β ε : Type*)
  | more
  | item (value : β) (rest : List α)
  | fail (error : ε)

/-- A parser of one item whose answers are stable under later input. -/
structure Cutter (α β ε : Type*) where
  cut : List α → Cut α β ε
  item_lt : ∀ {xs : List α} {b : β} {rest : List α},
    cut xs = .item b rest → rest.length < xs.length
  item_append : ∀ {xs : List α} {b : β} {rest : List α} (ys : List α),
    cut xs = .item b rest → cut (xs ++ ys) = .item b (rest ++ ys)
  fail_append : ∀ {xs : List α} {e : ε} (ys : List α),
    cut xs = .fail e → cut (xs ++ ys) = .fail e

/-- What a receiver has delivered, and whether it is still open (with the
bytes it holds) or has failed. -/
structure Received (α β ε : Type*) where
  items : List β
  tail : Except ε (List α)
  deriving DecidableEq

def Received.prepend (bs : List β) (r : Received α β ε) : Received α β ε :=
  ⟨bs ++ r.items, r.tail⟩

@[simp] theorem Received.prepend_items (bs : List β) (r : Received α β ε) :
    (r.prepend bs).items = bs ++ r.items := rfl

@[simp] theorem Received.prepend_tail (bs : List β) (r : Received α β ε) :
    (r.prepend bs).tail = r.tail := rfl

@[simp] theorem Received.prepend_prepend (bs cs : List β) (r : Received α β ε) :
    (r.prepend cs).prepend bs = r.prepend (bs ++ cs) := by
  simp [Received.prepend]

@[simp] theorem Received.prepend_nil (r : Received α β ε) : r.prepend [] = r := rfl

namespace Cutter

variable (p : Cutter α β ε)

/-- Cut items until the cutter asks for more or fails. -/
def drain (xs : List α) : Received α β ε :=
  match _h : p.cut xs with
  | .more => ⟨[], .ok xs⟩
  | .fail e => ⟨[], .error e⟩
  | .item b rest => (drain rest).prepend [b]
termination_by xs.length
decreasing_by exact p.item_lt _h

variable {p}

theorem drain_more {xs : List α} (h : p.cut xs = .more) :
    p.drain xs = ⟨[], .ok xs⟩ := by
  rw [drain]
  split <;> simp_all

theorem drain_fail {xs : List α} {e : ε} (h : p.cut xs = .fail e) :
    p.drain xs = ⟨[], .error e⟩ := by
  rw [drain]
  split <;> simp_all

theorem drain_item {xs rest : List α} {b : β} (h : p.cut xs = .item b rest) :
    p.drain xs = (p.drain rest).prepend [b] := by
  rw [drain]
  split <;> simp_all

theorem drain_induction {motive : List α → Prop}
    (more : ∀ xs, p.cut xs = .more → motive xs)
    (fail : ∀ xs e, p.cut xs = .fail e → motive xs)
    (item : ∀ xs b rest, p.cut xs = .item b rest → motive rest → motive xs) :
    ∀ xs, motive xs := by
  intro xs
  induction hlen : xs.length using Nat.strong_induction_on generalizing xs with
  | _ n ih =>
      cases hcut : p.cut xs with
      | more => exact more xs hcut
      | fail e => exact fail xs e hcut
      | item b rest =>
          refine item xs b rest hcut (ih rest.length ?_ rest rfl)
          rw [← hlen]
          exact p.item_lt hcut

theorem length_of_drain_ok {xs left : List α} (h : (p.drain xs).tail = .ok left) :
    left.length ≤ xs.length := by
  induction xs using p.drain_induction with
  | more xs hcut =>
      rw [drain_more hcut] at h
      cases h
      exact le_rfl
  | fail xs e hcut => simp [drain_fail hcut] at h
  | item xs b rest hcut ih =>
      rw [drain_item hcut] at h
      exact (ih h).trans (p.item_lt hcut).le

variable (p)

/-- Append an arrival to what is buffered and drain; a failed receiver takes
no more input. -/
def feed (r : Received α β ε) (ys : List α) : Received α β ε :=
  match r.tail with
  | .error _ => r
  | .ok left => (p.drain (left ++ ys)).prepend r.items

def feedAll (r : Received α β ε) (arrivals : List (List α)) : Received α β ε :=
  arrivals.foldl p.feed r

variable {p}

theorem feed_prepend (bs : List β) (r : Received α β ε) (ys : List α) :
    p.feed (r.prepend bs) ys = (p.feed r ys).prepend bs := by
  unfold feed
  cases h : r.tail <;> simp [h]

/-- Draining a longer stream is draining a prefix and feeding the rest. -/
theorem drain_append (xs ys : List α) :
    p.drain (xs ++ ys) = p.feed (p.drain xs) ys := by
  induction xs using p.drain_induction with
  | more xs hcut => simp [feed, drain_more hcut]
  | fail xs e hcut =>
      simp [feed, drain_fail hcut, drain_fail (p.fail_append ys hcut)]
  | item xs b rest hcut ih =>
      rw [drain_item hcut, drain_item (p.item_append ys hcut), ih, feed_prepend]

/-- **Chunking independence.**  However a stream is split into arrivals, the
receiver delivers what one drain of the whole stream delivers. -/
theorem feedAll_eq_drain (xs : List α) (arrivals : List (List α)) :
    p.feedAll (p.drain xs) arrivals = p.drain (xs ++ arrivals.flatten) := by
  induction arrivals generalizing xs with
  | nil => simp [feedAll]
  | cons ys arrivals ih =>
      have hstep : p.feedAll (p.drain xs) (ys :: arrivals) =
          p.feedAll (p.drain (xs ++ ys)) arrivals := by
        rw [drain_append]
        rfl
      rw [hstep, ih, List.flatten_cons, List.append_assoc]

/-- A stream that is a concatenation of encoded items drains to these items,
followed by what the rest drains to. -/
theorem drain_encoded {γ : Type*} (encode : γ → List α) (value : γ → β)
    (items : List γ)
    (hcut : ∀ g ∈ items, ∀ rest, p.cut (encode g ++ rest) = .item (value g) rest)
    (rest : List α) :
    p.drain (items.flatMap encode ++ rest) =
      (p.drain rest).prepend (items.map value) := by
  induction items with
  | nil => simp
  | cons g items ih =>
      have htail := ih fun g' hg' ↦ hcut g' (List.mem_cons_of_mem g hg')
      rw [List.flatMap_cons, List.append_assoc,
        drain_item (hcut g (by simp) _), htail]
      simp

end Cutter

end Cutting
