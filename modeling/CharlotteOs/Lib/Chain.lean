import Mathlib.Data.List.Basic
import Mathlib.Data.List.Nodup

/-!
# Singly linked chains

A chain is what following a successor function from a start pointer visits, when the walk ends.
The successor function stands for link words in a memory, or for link fields of a table. A walk
that ends visits no node twice, so a chain needs no separate acyclicity clause. The operations of
a linked list are point updates of the successor function, and each of them is a lemma here.

## Main definitions

* `Chain next start l`: from `start`, following `next` visits exactly `l`, in order, and ends

## Main results

* `Chain.unique`, `Chain.nodup`: the chain of a start pointer is unique and visits no node twice
* `Chain.congr`: a chain survives every update outside its nodes
* `Chain.push`: linking a new node in front
* `Chain.unlink`: taking out the node after a given one
-/

namespace LinkedChain

variable {α : Type*}

/-- From `start`, following `next` visits exactly the nodes of `l`, in order, and then ends. -/
def Chain (next : α → Option α) : Option α → List α → Prop
  | start, [] => start = none
  | start, a :: l => start = some a ∧ Chain next (next a) l

variable {next next' : α → Option α} {start : Option α} {l l' : List α} {a b : α}

@[simp] theorem chain_nil : Chain next start [] ↔ start = none := Iff.rfl

@[simp] theorem chain_cons :
    Chain next start (a :: l) ↔ start = some a ∧ Chain next (next a) l := Iff.rfl

instance decidableChain [DecidableEq α] : ∀ start l, Decidable (Chain next start l)
  | start, [] => inferInstanceAs (Decidable (start = none))
  | start, a :: l =>
    have := decidableChain (next a) l
    inferInstanceAs (Decidable (start = some a ∧ Chain next (next a) l))

/-- The start of a chain is its first node. -/
theorem Chain.start_eq (h : Chain next start l) : start = l.head? := by
  cases l with
  | nil => exact h
  | cons a l => exact h.1

/-- A start pointer has at most one chain. -/
theorem Chain.unique (h : Chain next start l) (h' : Chain next start l') : l = l' := by
  induction l generalizing start l' with
  | nil =>
    cases l' with
    | nil => rfl
    | cons b l' =>
      rw [chain_nil] at h
      rw [chain_cons, h] at h'
      exact absurd h'.1 (by simp)
  | cons a l ih =>
    cases l' with
    | nil =>
      rw [chain_nil] at h'
      rw [chain_cons, h'] at h
      exact absurd h.1 (by simp)
    | cons b l' =>
      obtain ⟨h₁, h₂⟩ := h
      obtain ⟨h₁', h₂'⟩ := h'
      obtain rfl : a = b := Option.some.inj (h₁.symm.trans h₁')
      rw [ih h₂ h₂']

/-- The part of a chain from one of its nodes on is the chain of that node. -/
theorem Chain.drop_prefix {l₁ : List α} (h : Chain next start (l₁ ++ a :: l)) :
    Chain next (some a) (a :: l) := by
  induction l₁ generalizing start with
  | nil => exact ⟨rfl, h.2⟩
  | cons b l₁ ih => exact ih h.2

/-- A walk that ends visits no node twice: the node would have two walks of different lengths. -/
theorem Chain.nodup (h : Chain next start l) : l.Nodup := by
  induction l generalizing start with
  | nil => exact List.nodup_nil
  | cons a l ih =>
    refine List.nodup_cons.mpr ⟨fun hmem => ?_, ih h.2⟩
    obtain ⟨l₁, l₂, rfl⟩ := List.append_of_mem hmem
    have hlong : Chain next (some a) (a :: (l₁ ++ a :: l₂)) := ⟨rfl, h.2⟩
    have hshort : Chain next (some a) (a :: l₂) := Chain.drop_prefix h.2
    have hlen := congrArg List.length (hlong.unique hshort)
    simp at hlen
    omega

/-- A chain depends on the links of its own nodes only. -/
theorem Chain.congr (h : Chain next start l) (hn : ∀ a ∈ l, next' a = next a) :
    Chain next' start l := by
  induction l generalizing start with
  | nil => exact h
  | cons a l ih =>
    refine ⟨h.1, ?_⟩
    rw [hn a List.mem_cons_self]
    exact ih h.2 fun b hb => hn b (List.mem_cons_of_mem a hb)

/-- A chain along links that agree up to a node of another chain visits that node. -/
theorem Chain.mem_of_agree {l₁ : List α} (h : Chain next start (l₁ ++ a :: l))
    (hn : ∀ b ∈ l₁, next' b = next b) (h' : Chain next' start l') : a ∈ l' := by
  induction l₁ generalizing start l' with
  | nil =>
    cases l' with
    | nil => exact absurd (h.1.symm.trans h') (by simp)
    | cons b l' =>
      obtain rfl : a = b := Option.some.inj (h.1.symm.trans h'.1)
      exact List.mem_cons_self
  | cons c l₁ ih =>
    cases l' with
    | nil => exact absurd (h.1.symm.trans h') (by simp)
    | cons b l' =>
      obtain rfl : c = b := Option.some.inj (h.1.symm.trans h'.1)
      have hrest := h'.2
      rw [hn c List.mem_cons_self] at hrest
      exact List.mem_cons_of_mem _ (ih h.2 (fun d hd => hn d (List.mem_cons_of_mem _ hd)) hrest)

/-- Linking a node in front of a chain whose links are kept. -/
theorem Chain.push (h : Chain next start l) (ha : next' a = start)
    (hl : ∀ b ∈ l, next' b = next b) : Chain next' (some a) (a :: l) := by
  refine ⟨rfl, ?_⟩
  rw [ha]
  exact h.congr hl

/-- Unlinking the node after `a`: the link of `a` skips it, and the other links are kept. -/
theorem Chain.unlink {l₁ : List α} (h : Chain next start (l₁ ++ a :: b :: l))
    (ha : next' a = next b) (hl : ∀ c ∈ l₁ ++ l, next' c = next c) :
    Chain next' start (l₁ ++ a :: l) := by
  induction l₁ generalizing start with
  | nil =>
    refine ⟨h.1, ?_⟩
    rw [ha]
    exact Chain.congr h.2.2 hl
  | cons c l₁ ih =>
    refine ⟨h.1, ?_⟩
    rw [hl c (by simp)]
    exact ih h.2 fun d hd => hl d (List.mem_cons_of_mem c hd)

end LinkedChain
