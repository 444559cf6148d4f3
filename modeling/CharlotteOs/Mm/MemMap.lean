import CharlotteOs.Mm.Address

/-!
# The table of physical pages

`src/mm/mod.rs`: `MEM_MAP` has one `Page` for each page of RAM, from the page `RAM_START_PPN` on.
`get_page_state` finds the entry of a page number by a subtraction that wraps and a slice index
that is checked.

## Main definitions

* `Slub`, `Slab`, `PageState`, `Page`: the entries
* `MemMap`, `MemMap.getPageState`, `MemMap.set`: the table, read and written by page number
* `MemMap.InRange`: the page numbers that have an entry
* `MemMap.fill`: a run of consecutive entries set to one value
-/

namespace CharlotteOs

/-- The fields of `Slab::Slub`, the head page of a slab. The cache is named by its index. -/
structure Slub where
  freelist : ℕ
  inuse : ℕ
  cache : ℕ
  hasNext : Bool
  nextPartial : ℕ
  deriving DecidableEq, Repr

/-- `Slab`. -/
inductive Slab
  | slub (s : Slub)
  | slubTail (headPagePpn : ℕ)
  deriving DecidableEq, Repr

/-- `PageState`. -/
inductive PageState
  | reserved
  | slab (s : Slab)
  | free
  | pageTable
  deriving DecidableEq, Repr

/-- `Page`. -/
structure Page where
  refCount : ℕ
  state : PageState
  deriving DecidableEq, Repr

/-- The slab head in a page entry, as `if let PageState::Slab(Slab::Slub { .. })` finds it. -/
def Page.slub? (page : Page) : Option Slub :=
  match page.state with
  | .slab (.slub s) => some s
  | _ => none

/-- `MEM_MAP`, as a function of the index and a length, with `RAM_START_PPN`. -/
structure MemMap where
  pages : ℕ → Page
  len : ℕ
  ramStartPpn : ℕ

namespace MemMap

/-- The index of a page number. The subtraction wraps. -/
def index (m : MemMap) (ppn : ℕ) : ℕ := (ppn + (2 ^ 64 - m.ramStartPpn)) % 2 ^ 64

/-- The entry of a page number, whether or not the index is in bounds. -/
def page (m : MemMap) (ppn : ℕ) : Page := m.pages (m.index ppn)

/-- `get_page_state`, read. -/
def getPageState (m : MemMap) (ppn : ℕ) : Except Fault Page :=
  if m.index ppn < m.len then .ok (m.page ppn) else .error .indexOutOfBounds

/-- The table after the entry of a page number is overwritten. -/
def set (m : MemMap) (ppn : ℕ) (page : Page) : MemMap :=
  { m with pages := Function.update m.pages (m.index ppn) page }

/-- The slab head at a page number. -/
def slubAt (m : MemMap) (ppn : ℕ) : Option Slub := (m.page ppn).slub?

/-- The table after the slab head at a page number is overwritten, its other fields kept. -/
def setSlub (m : MemMap) (ppn : ℕ) (s : Slub) : MemMap :=
  m.set ppn { m.page ppn with state := .slab (.slub s) }

/-- The slab head at a page number, or the panic of the place that wants one. -/
def getSlub (m : MemMap) (ppn : ℕ) (fault : Fault) : Except Fault Slub := do
  let page ← m.getPageState ppn
  match page.slub? with
  | some s => .ok s
  | none => .error fault

/-- A loop over consecutive pages that overwrites their entries. -/
def fill (page : Page) : ℕ → ℕ → MemMap → Except Fault MemMap
  | 0, _, m => .ok m
  | n + 1, ppn, m => do
    let _ ← m.getPageState ppn
    fill page n (ppn + 1) (m.set ppn page)

/-- The page numbers that have an entry. -/
def InRange (m : MemMap) (ppn : ℕ) : Prop :=
  m.ramStartPpn ≤ ppn ∧ ppn < m.ramStartPpn + m.len ∧ ppn < 2 ^ 64

variable {m : MemMap} {ppn q : ℕ}

theorem InRange.index_eq (h : m.InRange ppn) : m.index ppn = ppn - m.ramStartPpn := by
  obtain ⟨hle, -, hlt⟩ := h
  rw [index]
  omega

/-- Page numbers are told apart by their indices, in range or not. -/
theorem eq_of_index_eq (hp : ppn < 2 ^ 64) (hq : q < 2 ^ 64) (h : m.index ppn = m.index q) :
    ppn = q := by
  rw [index, index] at h
  generalize 2 ^ 64 - m.ramStartPpn = k at h
  omega

theorem InRange.index_ne (h : m.InRange ppn) (hq : m.InRange q) (hne : q ≠ ppn) :
    m.index q ≠ m.index ppn :=
  fun heq => hne (eq_of_index_eq hq.2.2 h.2.2 heq)

theorem InRange.getPageState_eq (h : m.InRange ppn) : m.getPageState ppn = .ok (m.page ppn) := by
  rw [getPageState, if_pos]
  rw [h.index_eq]
  have := h.1
  have := h.2.1
  omega

theorem getSlub_of_slubAt (h : m.InRange ppn) {s : Slub} (hs : m.slubAt ppn = some s)
    (fault : Fault) : m.getSlub ppn fault = .ok s := by
  have hs' : (m.page ppn).slub? = some s := hs
  rw [getSlub, h.getPageState_eq]
  show (match (m.page ppn).slub? with | some s => _ | none => _) = _
  rw [hs']

theorem slubAt_of_getSlub {s : Slub} {fault : Fault} (h : m.getSlub ppn fault = .ok s) :
    m.slubAt ppn = some s := by
  rw [getSlub, getPageState] at h
  split at h
  · rw [ok_bind] at h
    rw [slubAt]
    cases hs : (m.page ppn).slub? with
    | none =>
      rw [hs] at h
      cases h
    | some s' =>
      rw [hs] at h
      cases h
      rfl
  · cases h

theorem setSlub_eq_self {s : Slub} (h : m.slubAt ppn = some s) : m.setSlub ppn s = m := by
  have hpage : ({ m.page ppn with state := .slab (.slub s) } : Page) = m.pages (m.index ppn) := by
    rw [slubAt, Page.slub?] at h
    split at h
    · rename_i hs
      cases h
      show _ = m.page ppn
      rw [← hs]
    · cases h
  rw [setSlub, set, hpage, Function.update_eq_self]

@[simp] theorem inRange_set {page : Page} : (m.set ppn page).InRange q ↔ m.InRange q := Iff.rfl

@[simp] theorem inRange_setSlub {s : Slub} : (m.setSlub ppn s).InRange q ↔ m.InRange q := Iff.rfl

theorem page_set_self (page : Page) : (m.set ppn page).page ppn = page :=
  Function.update_self ..

theorem page_set_of_ne (h : m.InRange ppn) (hq : m.InRange q) (hne : q ≠ ppn) (page : Page) :
    (m.set ppn page).page q = m.page q :=
  Function.update_of_ne (h.index_ne hq hne) _ _

@[simp] theorem slubAt_setSlub_self (s : Slub) : (m.setSlub ppn s).slubAt ppn = some s := by
  rw [slubAt, setSlub, page_set_self]
  rfl

theorem slubAt_setSlub_of_ne (h : m.InRange ppn) (hq : m.InRange q) (hne : q ≠ ppn) (s : Slub) :
    (m.setSlub ppn s).slubAt q = m.slubAt q := by
  rw [slubAt, setSlub, page_set_of_ne h hq hne, slubAt]

/-- **The fill loop** overwrites the entries of its pages and no other. -/
theorem fill_spec (page : Page) (n : ℕ) :
    ∀ {m : MemMap} {ppn : ℕ}, (∀ q, ppn ≤ q → q < ppn + n → m.InRange q) →
      ∃ m', fill page n ppn m = .ok m' ∧ m'.len = m.len ∧ m'.ramStartPpn = m.ramStartPpn ∧
        (∀ q, ppn ≤ q → q < ppn + n → m'.page q = page) ∧
        ∀ q, m.InRange q → (q < ppn ∨ ppn + n ≤ q) → m'.page q = m.page q := by
  induction n with
  | zero =>
    intro m ppn _
    exact ⟨m, rfl, rfl, rfl, fun q h₁ h₂ => by omega, fun _ _ _ => rfl⟩
  | succ n ih =>
    intro m ppn h
    have hppn : m.InRange ppn := h ppn le_rfl (by omega)
    obtain ⟨m', hm', hlen, hstart, hin, hout⟩ := ih (m := m.set ppn page)
      fun q (h₁ : ppn + 1 ≤ q) h₂ => h q (by omega) (by omega)
    refine ⟨m', ?_, hlen, hstart, fun q h₁ h₂ => ?_, fun q hq hor => ?_⟩
    · rw [fill, hppn.getPageState_eq]
      exact hm'
    · rcases h₁.eq_or_lt with rfl | hlt
      · rw [hout ppn hppn (Or.inl (by omega)), page_set_self]
      · exact hin q hlt (by omega)
    · rw [hout q hq (by omega), page_set_of_ne hppn hq (by omega)]

end MemMap

end CharlotteOs
