import Mathlib.Data.Nat.Notation
import Mathlib.Data.Set.Defs

/-!
# Buses

A driver works on a device by loads and stores at addresses. What these do is up to the device, so a
driver is a function of a `Bus`, and a device is one bus. What a driver does on every device is seen
on the buses that write down the addresses and give any answer.

## Main definitions

* `Bus`: loads and stores on a state
* `Bus.logged`: the bus that writes the addresses down
* `Bus.Keeps bus A I`: accesses at addresses of `A` keep `I`

## Main results

* `Bus.keeps_logged`: a driver that keeps everything that accesses in `A` keep accesses only `A`
-/

/-- What loads and stores at addresses do to the state of a device. -/
structure Bus (δ : Type) where
  read : δ → ℕ → ℕ × δ
  write : δ → ℕ → ℕ → δ

namespace Bus

variable {δ : Type} {bus : Bus δ} {A : Set ℕ} {I : δ → Prop}

/-- The bus that writes down the addresses of all accesses. What is loaded depends on the address
and on the accesses before. -/
def logged (answer : List ℕ → ℕ → ℕ) : Bus (List ℕ) where
  read log addr := (answer log addr, log ++ [addr])
  write log addr _ := log ++ [addr]

/-- Accesses at addresses of `A` keep `I`. -/
structure Keeps (bus : Bus δ) (A : Set ℕ) (I : δ → Prop) : Prop where
  read : ∀ d addr, addr ∈ A → I d → I (bus.read d addr).2
  write : ∀ d addr value, addr ∈ A → I d → I (bus.write d addr value)

/-- Accesses at addresses of `A` leave only these addresses in the log. -/
theorem keeps_logged (answer : List ℕ → ℕ → ℕ) (A : Set ℕ) :
    (logged answer).Keeps A fun log => ∀ addr ∈ log, addr ∈ A := by
  have hsnoc : ∀ (log : List ℕ) (addr : ℕ), addr ∈ A → (∀ a ∈ log, a ∈ A) →
      ∀ a ∈ log ++ [addr], a ∈ A := by
    intro log addr haddr hlog a ha
    rcases List.mem_append.mp ha with ha | ha
    · exact hlog a ha
    · exact List.mem_singleton.mp ha ▸ haddr
  exact ⟨hsnoc, fun log addr _ => hsnoc log addr⟩

end Bus
