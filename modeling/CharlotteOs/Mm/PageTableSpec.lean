import CharlotteOs.Lib.Run
import CharlotteOs.Lib.TableLeaves
import CharlotteOs.Mm.PageTable

/-!
# Page tables as trees

The tables in memory are a tree of tables: an entry decodes to nothing, a leaf or the frame of a
table, and the functions that look entries up follow the tree. A pointer to an entry determines the
frame and the index, and a word that is written through it is that of one entry.

`find_pte` does not ask whether an entry is a leaf. Above the last level it takes the page that a
large leaf maps for a table, and where it reads a valid entry there it returns a pointer into that
page.

## Main definitions

* `LeafFlags`: flags of a leaf that the hardware accepts
* `PageTable.missing`: the number of tables that have to be made

## Main results

* `PageTableEntry.decode_new_leaf`, `PageTableEntry.decode_new_table`: entries decode to what they
  were made of
* `tables_update`: a written word is that of one entry
* `PageTable.bumpFindLoop_eq`: `bump_find_pte` follows the tree
* `PageTable.unmap_eq_ok`: what `unmap` does where it returns
* `PageTable.findPte_eq_bumpFindPte_iff`: where the two lookups of a page agree
-/

namespace CharlotteOs

open FallibleRun TableTree PageTableEntry

/-! ## Entries -/

namespace PageTableEntry

variable {p f : ℕ}

theorem ppn_lt (bits : ℕ) : ppn bits < 2 ^ 44 := by
  rw [ppn, Nat.and_two_pow_sub_one_eq_mod]
  exact Nat.mod_lt _ (by decide)

/-- A page number that does not fit in an entry is cut off. -/
theorem ppn_new_mod (hf : f < 2 ^ 8) : ppn (new p f) = p % 2 ^ 44 := by
  have hflags : f >>> 10 = 0 := by
    rw [Nat.shiftRight_eq_div_pow]
    omega
  have hshift : ((p <<< 10) % 2 ^ 64) >>> 10 = p % 2 ^ 54 := by
    rw [Nat.shiftLeft_eq, Nat.shiftRight_eq_div_pow]
    omega
  rw [ppn, new, Nat.shiftRight_or_distrib, hflags, Nat.or_zero, hshift,
    Nat.and_two_pow_sub_one_eq_mod]
  omega

theorem ppn_new (hp : p < 2 ^ 44) (hf : f < 2 ^ 8) : ppn (new p f) = p := by
  rw [ppn_new_mod hf, Nat.mod_eq_of_lt hp]

theorem flags_new (hf : f < 2 ^ 8) : flags (new p f) = f := by
  have hshift : (p <<< 10) % 2 ^ 64 % 2 ^ 8 = 0 := by
    rw [Nat.shiftLeft_eq]
    omega
  rw [flags, new, Nat.or_mod_two_pow, hshift, Nat.zero_or, Nat.mod_eq_of_lt hf]

theorem isValid_eq (bits : ℕ) : isValid bits = decide (bits % 2 = 1) := by
  have hand : bits &&& PTEFlags.v = bits % 2 := Nat.and_two_pow_sub_one_eq_mod bits 1
  rw [isValid, hand, bne, Bool.eq_iff_iff, Bool.not_eq_true', beq_eq_false_iff_ne,
    decide_eq_true_iff]
  omega

theorem isValid_flags (bits : ℕ) : isValid (flags bits) = isValid bits := by
  have hmod : flags bits % 2 = bits % 2 := by
    rw [flags]
    omega
  rw [isValid_eq, isValid_eq, hmod]

theorem isValid_new (hf : f < 2 ^ 8) : isValid (new p f) = isValid f := by
  rw [← isValid_flags, flags_new hf]

theorem isLeaf_new (hf : f < 2 ^ 8) : isLeaf (new p f) = isLeaf f := by
  have hflags : flags f = f := Nat.mod_eq_of_lt hf
  simp only [isLeaf, flags_new hf, hflags]

theorem decode_empty : decode PageTableEntry.empty = .empty := rfl

theorem decode_of_not_valid {bits : ℕ} (h : isValid bits = false) : decode bits = .empty := by
  rw [decode, h]
  rfl

theorem decode_of_leaf {bits : ℕ} (hv : isValid bits = true) (hl : isLeaf bits = true) :
    decode bits = .leaf bits := by
  rw [decode, hv, hl]
  rfl

theorem decode_of_table {bits : ℕ} (hv : isValid bits = true) (hl : isLeaf bits = false) :
    decode bits = .table (ppn bits) := by
  rw [decode, hv, hl]
  rfl

theorem decode_eq_empty {bits : ℕ} : decode bits = .empty ↔ isValid bits = false := by
  refine ⟨fun h => ?_, decode_of_not_valid⟩
  by_contra hv
  rw [Bool.not_eq_false] at hv
  cases hl : isLeaf bits with
  | true =>
    rw [decode_of_leaf hv hl] at h
    cases h
  | false =>
    rw [decode_of_table hv hl] at h
    cases h

theorem isValid_of_decode_ne {bits : ℕ} (h : decode bits ≠ .empty) : isValid bits = true := by
  rwa [Ne, decode_eq_empty, Bool.not_eq_false] at h

theorem valid_leaf_of_decode {bits l : ℕ} (h : decode bits = .leaf l) :
    isValid bits = true ∧ isLeaf bits = true := by
  have hv : isValid bits = true := isValid_of_decode_ne (by rw [h]; nofun)
  refine ⟨hv, ?_⟩
  by_contra hl
  rw [decode_of_table hv (Bool.eq_false_of_not_eq_true hl)] at h
  cases h

theorem decode_eq_table {bits a : ℕ} :
    decode bits = .table a ↔ isValid bits = true ∧ isLeaf bits = false ∧ ppn bits = a := by
  constructor
  · intro h
    cases hv : isValid bits with
    | false =>
      rw [decode_of_not_valid hv] at h
      cases h
    | true =>
      cases hl : isLeaf bits with
      | true =>
        rw [decode_of_leaf hv hl] at h
        cases h
      | false =>
        rw [decode_of_table hv hl] at h
        exact ⟨rfl, rfl, Entry.table.inj h⟩
  · rintro ⟨hv, hl, rfl⟩
    exact decode_of_table hv hl

/-- The entry of a table that was made. -/
theorem decode_new_table (hp : p < 2 ^ 44) : decode (new p PTEFlags.v) = .table p := by
  rw [decode_of_table (isValid_new (by decide)) (isLeaf_new (by decide)),
    ppn_new hp (by decide)]

/-- The flags of a leaf with `V` added. -/
theorem or_v_lt (hf : f < 2 ^ 8) : f ||| PTEFlags.v < 2 ^ 8 := Nat.or_lt_two_pow hf (by decide)

theorem isValid_or_v (f : ℕ) : isValid (f ||| PTEFlags.v) = true := by
  rw [isValid_eq, decide_eq_true_iff]
  simp

/-- The entry of a leaf that was made. -/
theorem decode_new_leaf (hf : f < 2 ^ 8)
    (hleaf : isLeaf (f ||| PTEFlags.v) = true) :
    decode (new p (f ||| PTEFlags.v)) = .leaf (new p (f ||| PTEFlags.v)) :=
  decode_of_leaf ((isValid_new (or_v_lt hf)).trans (isValid_or_v f))
    ((isLeaf_new (or_v_lt hf)).trans hleaf)

end PageTableEntry

/-- Adding `V` to flags changes no other flag. -/
theorem contains_or_v {f k : ℕ} (hk : PTEFlags.v &&& k = 0) :
    PTEFlags.contains (f ||| PTEFlags.v) k = PTEFlags.contains f k := by
  rw [PTEFlags.contains, PTEFlags.contains, Nat.and_or_distrib_right, hk, Nat.or_zero]

theorem isLeaf_or_v {f : ℕ} (hf : f < 2 ^ 8) : isLeaf (f ||| PTEFlags.v) = isLeaf f := by
  have hflags : flags f = f := Nat.mod_eq_of_lt hf
  have hflags' : flags (f ||| PTEFlags.v) = f ||| PTEFlags.v := Nat.mod_eq_of_lt (or_v_lt hf)
  rw [isLeaf, isLeaf, hflags, hflags', contains_or_v (by decide), contains_or_v (by decide),
    contains_or_v (by decide)]

/-! ## Page numbers -/

namespace VirtPageNum

theorem indices_inj {v v' : ℕ} (hv : v < 2 ^ 27) (hv' : v' < 2 ^ 27) (h : indices v = indices v') :
    v = v' := by
  simp only [indices, List.cons.injEq, Fin.ext_iff, Fin.val_ofNat, and_true,
    Nat.shiftRight_eq_div_pow] at h
  omega

/-- Every path to an entry of the last level is that of a page. -/
theorem exists_indices {l : List (Fin 512)} (hl : l.length = 3) : ∃ v < 2 ^ 27, indices v = l := by
  obtain ⟨i, j, k, rfl⟩ := List.length_eq_three.mp hl
  have hi := i.isLt
  have hj := j.isLt
  have hk := k.isLt
  refine ⟨i * 2 ^ 18 + j * 2 ^ 9 + k, by omega, ?_⟩
  simp only [indices, List.cons.injEq, Fin.ext_iff, Fin.val_ofNat, and_true,
    Nat.shiftRight_eq_div_pow]
  omega

/-- The path to the leaf of a page, with its last index. -/
theorem exists_take (v : ℕ) (size : PageSize) :
    ∃ p i, (indices v).take size.targetLevel = p ++ [i] ∧ p.length + 1 = size.targetLevel := by
  cases size with
  | fourKB => exact ⟨[_, _], _, rfl, rfl⟩
  | twoMB => exact ⟨[_], _, rfl, rfl⟩
  | oneGB => exact ⟨[], _, rfl, rfl⟩

end VirtPageNum

/-! ## Words of tables -/

/-- The address of an entry determines the frame and the index. -/
theorem slot_inj {f g : ℕ} {i j : Fin 512} :
    f * pageSize + 8 * i = g * pageSize + 8 * j ↔ f = g ∧ i = j := by
  have hi := i.isLt
  have hj := j.isLt
  rw [Fin.ext_iff]
  simp only [pageSize]
  omega

theorem tables_update (m : Mem) (f g w : ℕ) (i j : Fin 512) :
    tables (Function.update m (f * pageSize + 8 * i) w) g j =
      if g = f ∧ j = i then w else tables m g j := by
  rw [tables, tables, Function.update_apply]
  exact if_congr slot_inj rfl rfl

theorem tables_zero (m : Mem) (f : ℕ) : tables m f 0 = m (f * pageSize) := by
  rw [tables, Fin.val_zero, Nat.mul_zero, Nat.add_zero]

theorem tables_update_of_ne {m : Mem} {f g w : ℕ} {i j : Fin 512} (h : g ≠ f ∨ j ≠ i) :
    tables (Function.update m (f * pageSize + 8 * i) w) g j = tables m g j := by
  rw [tables_update, if_neg (by tauto)]

/-- A word of a table that does not name a table is replaced by another one. -/
theorem isTree_update {m : Mem} {root n b w : ℕ} {p : List (Fin 512)} {i : Fin 512}
    (ht : IsTree decode (tables m) n root) (hb : tableAt decode (tables m) root p = some b)
    (hold : ∀ c, decode (tables m b i) ≠ .table c) (hnew : ∀ c, decode w ≠ .table c) :
    let m' := Function.update m (b * pageSize + 8 * i) w
    IsTree decode (tables m') n root ∧
      frames decode (tables m') root = frames decode (tables m) root ∧
      (∀ q, tableAt decode (tables m') root q = tableAt decode (tables m) root q) ∧
      leaves decode (tables m') root = {x | x ∈ leaves decode (tables m) root ∧ x.1 ≠ p ++ [i]} ∪
        {x | x.1 = p ++ [i] ∧ decode w = .leaf x.2} := by
  intro m'
  have hword : tables m' b i = w := by
    rw [tables_update, if_pos ⟨rfl, rfl⟩]
  have hsame : ∀ f ∈ frames decode (tables m) root, ∀ j, f ≠ b ∨ j ≠ i →
      tables m' f j = tables m f j := fun f _ j => tables_update_of_ne
  have hnew' : ∀ c, decode (tables m' b i) ≠ .table c := by rwa [hword]
  obtain ⟨htree, hframes, hpaths⟩ := ht.write hb hsame hold hnew'
  have hleaves := leaves_write ht hb hsame hold hnew'
  rw [hword] at hleaves
  exact ⟨htree, hframes, hpaths, hleaves⟩

/-- A word of a table is cleared, whatever it was. -/
theorem isTree_clear {m : Mem} {root n b : ℕ} {p : List (Fin 512)} {i : Fin 512}
    (ht : IsTree decode (tables m) n root) (hb : tableAt decode (tables m) root p = some b) :
    let m' := Function.update m (b * pageSize + 8 * i) PageTableEntry.empty
    IsTree decode (tables m') n root ∧
      frames decode (tables m') root ⊆ frames decode (tables m) root ∧
      paths decode (tables m') root = {q | q ∈ paths decode (tables m) root ∧ ¬ p ++ [i] <+: q} ∧
      leaves decode (tables m') root =
        {x | x ∈ leaves decode (tables m) root ∧ ¬ p ++ [i] <+: x.1} := by
  intro m'
  have hsame : ∀ f ∈ frames decode (tables m) root, ∀ j, f ≠ b ∨ j ≠ i →
      tables m' f j = tables m f j := fun f _ j => tables_update_of_ne
  have hempty : decode (tables m' b i) = .empty := by
    rw [tables_update, if_pos ⟨rfl, rfl⟩]
    exact decode_empty
  obtain ⟨htree, hframes, hpaths, -⟩ := ht.prune hb hsame hempty
  exact ⟨htree, hframes, hpaths, leaves_prune ht hb hsame hempty⟩

theorem slot_page (f : ℕ) (i : Fin 512) : (f * pageSize + 8 * i) / pageSize = f := by
  have := i.isLt
  simp only [pageSize]
  omega

theorem slot_offset (f : ℕ) (i : Fin 512) : (f * pageSize + 8 * i) % pageSize = 8 * i := by
  have := i.isLt
  simp only [pageSize]
  omega

/-- Only the first entry of a table is the first word of its page. -/
theorem slot_offset_ne {f : ℕ} {i : Fin 512} (hi : i ≠ 0) :
    (f * pageSize + 8 * i) % pageSize ≠ 0 := by
  rw [slot_offset]
  have := Fin.val_ne_of_ne hi
  exact Nat.mul_ne_zero (by decide) this

theorem slot_lt {f : ℕ} (hf : f < 2 ^ 20) (i : Fin 512) : f * pageSize + 8 * i < 2 ^ 32 := by
  have := i.isLt
  simp only [pageSize]
  omega

/-- The pointer to an entry, in the linear window. -/
theorem entryPtr {f : ℕ} (hf : f < 2 ^ 20) (i : Fin 512) :
    physToVirt (PhysAddr.ofPpn f) + 8 * i = physToVirt (f * pageSize + 8 * i) := by
  rw [PhysAddr.ofPpn_eq (by omega), physToVirt_eq (mul_pageSize_lt hf),
    physToVirt_eq (slot_lt hf i)]
  omega

theorem entryPtr_offset {f : ℕ} (hf : f < 2 ^ 20) (i : Fin 512) :
    (physToVirt (PhysAddr.ofPpn f) + 8 * i) % pageSize = 8 * i := by
  rw [entryPtr hf, physToVirt_eq (slot_lt hf i), ← slot_offset f i]
  simp only [physVirtOffset, pageSize]
  omega

theorem load_entry (m : Mem) {f : ℕ} (hf : f < 2 ^ 20) (i : Fin 512) :
    m.load (physToVirt (PhysAddr.ofPpn f) + 8 * i) = tables m f i := by
  rw [entryPtr hf, Mem.load_physToVirt m (slot_lt hf i), tables]

theorem store_entry (m : Mem) {f : ℕ} (hf : f < 2 ^ 20) (i : Fin 512) (w : ℕ) :
    m.store (physToVirt (PhysAddr.ofPpn f) + 8 * i) w =
      Function.update m (f * pageSize + 8 * i) w := by
  rw [entryPtr hf, Mem.store_physToVirt m w (slot_lt hf i)]

/-! ## Translation -/

/-- Flags of a leaf that the hardware accepts. -/
structure LeafFlags (flags : ℕ) : Prop where
  lt : flags < 2 ^ 8
  leaf : isLeaf flags = true
  readable : PTEFlags.contains flags PTEFlags.w = true → PTEFlags.contains flags PTEFlags.r = true

/-- The entry of a leaf with such flags. -/
theorem LeafFlags.decode_new {f : ℕ} (hf : LeafFlags f) (p : ℕ) :
    decode (new p (f ||| PTEFlags.v)) = .leaf (new p (f ||| PTEFlags.v)) :=
  decode_new_leaf hf.lt ((isLeaf_or_v hf.lt).trans hf.leaf)

theorem walk_congr {t t' : ℕ → Fin 512 → ℕ} {root vpn : ℕ}
    (h : lookup decode t root (VirtPageNum.indices vpn) =
      lookup decode t' root (VirtPageNum.indices vpn)) : walk t root vpn = walk t' root vpn := by
  rw [walk, walk, h]

/-- The hardware finds the same in tables with the same leaves. -/
theorem sv39_congr {t t' : ℕ → Fin 512 → ℕ} {root : ℕ}
    (h : leaves decode t root = leaves decode t' root) (va : ℕ) :
    sv39 t root va = sv39 t' root va := by
  have hwalk : walk t root (va / pageSize) = walk t' root (va / pageSize) :=
    walk_congr (lookup_eq_of_leaves fun x _ => by rw [h])
  rw [sv39, sv39, hwalk]

/-- What the hardware finds is a leaf: its flags, and the page that the address is in. -/
theorem lookup_of_sv39 {t : ℕ → Fin 512 → ℕ} {root va pa f : ℕ}
    (h : sv39 t root va = some (pa, f)) :
    ∃ pte rest, lookup decode t root (VirtPageNum.indices (va / pageSize)) = some (pte, rest) ∧
      flags pte = f ∧ 512 ^ rest.length ∣ ppn pte ∧
      pa = (ppn pte + va / pageSize % 512 ^ rest.length) * pageSize + va % pageSize := by
  rw [sv39] at h
  split at h
  · obtain ⟨⟨n, f'⟩, hwalk, heq⟩ := Option.map_eq_some_iff.mp h
    obtain ⟨rfl, rfl⟩ := Prod.mk.inj heq
    rw [walk] at hwalk
    cases hlookup : lookup decode t root (VirtPageNum.indices (va / pageSize)) with
    | none =>
      rw [hlookup] at hwalk
      cases hwalk
    | some found =>
      rw [hlookup] at hwalk
      dsimp only at hwalk
      split at hwalk
      · cases hwalk
      · split at hwalk
        · cases hwalk
        · rename_i haligned
          obtain ⟨rfl, rfl⟩ := Prod.mk.inj (Option.some.inj hwalk)
          exact ⟨found.1, found.2, rfl, rfl, Nat.dvd_of_mod_eq_zero (not_not.mp haligned), rfl⟩
  · cases h

/-- The translation of a page whose leaf was made with given flags. -/
theorem walk_of_leaf {t : ℕ → Fin 512 → ℕ} {root vpn p f : ℕ} {rest : List (Fin 512)}
    (hp : p < 2 ^ 44) (hf : LeafFlags f) (halign : 512 ^ rest.length ∣ p)
    (h : lookup decode t root (VirtPageNum.indices vpn) = some (new p (f ||| PTEFlags.v), rest)) :
    walk t root vpn = some (p + vpn % 512 ^ rest.length, f ||| PTEFlags.v) := by
  have hv := or_v_lt hf.lt
  have hlegal : (PTEFlags.contains f PTEFlags.w && !PTEFlags.contains f PTEFlags.r) = false := by
    cases hw : PTEFlags.contains f PTEFlags.w with
    | false => rfl
    | true => rw [hf.readable hw]; rfl
  rw [walk, h]
  dsimp only
  rw [flags_new hv, ppn_new hp hv, contains_or_v (by decide), contains_or_v (by decide), hlegal,
    if_neg Bool.false_ne_true, if_neg (by rw [Nat.mod_eq_zero_of_dvd halign]; simp)]

/-! ## Lookup -/

namespace PageTable

/-- The number of tables that have to be made below `a` for a path to exist. -/
def missing (t : ℕ → Fin 512 → ℕ) : ℕ → List (Fin 512) → ℕ
  | _, [] => 0
  | a, i :: q =>
    match decode (t a i) with
    | .table b => missing t b q
    | _ => q.length + 1

theorem missing_cons_table {t : ℕ → Fin 512 → ℕ} {a b : ℕ} {i : Fin 512} {q : List (Fin 512)}
    (h : decode (t a i) = .table b) : missing t a (i :: q) = missing t b q := by
  rw [missing, h]

theorem missing_cons_empty {t : ℕ → Fin 512 → ℕ} {a : ℕ} {i : Fin 512} {q : List (Fin 512)}
    (h : decode (t a i) = .empty) : missing t a (i :: q) = q.length + 1 := by
  rw [missing, h]

/-- A table without valid entries has all tables of a path missing. -/
theorem missing_of_empty {t : ℕ → Fin 512 → ℕ} {a : ℕ} (h : ∀ j, decode (t a j) = .empty)
    (q : List (Fin 512)) : missing t a q = q.length := by
  cases q with
  | nil => rfl
  | cons j q => exact missing_cons_empty (h j)

/-- **`bump_find_pte` follows the tree**, as long as its tables are in the linear window. -/
theorem bumpFindLoop_eq {m : Mem} {a : ℕ} {p : List (Fin 512)} {i : Fin 512}
    (h : ∀ q b, q <+: p → tableAt decode (tables m) a q = some b → b < 2 ^ 20) :
    bumpFindLoop m (physToVirt (PhysAddr.ofPpn a)) (p ++ [i]) =
      (tableAt decode (tables m) a p).map fun b => physToVirt (PhysAddr.ofPpn b) + 8 * i := by
  induction p generalizing a with
  | nil => rfl
  | cons j p ih =>
    obtain ⟨k, rest, hrest⟩ : ∃ k rest, p ++ [i] = k :: rest := by
      cases p with
      | nil => exact ⟨i, [], rfl⟩
      | cons k p => exact ⟨k, p ++ [i], rfl⟩
    have ha : a < 2 ^ 20 := h [] a (List.nil_prefix) rfl
    rw [List.cons_append, hrest, bumpFindLoop, load_entry m ha, ← hrest]
    · cases hv : isValid (tables m a j) with
      | false => rw [tableAt, decode_of_not_valid hv]; rfl
      | true =>
        cases hl : isLeaf (tables m a j) with
        | true => rw [tableAt, decode_of_leaf hv hl]; rfl
        | false =>
          have htable := decode_of_table hv hl
          rw [tableAt_cons htable]
          refine ih fun q b hq hb => h (j :: q) b ((List.prefix_cons_inj j).mpr hq) ?_
          rw [tableAt_cons htable, hb]
    · intro hnil
      cases hnil

/-- **What `unmap` does where it returns**: it clears the entry of the page, which is in use. -/
theorem unmap_eq_ok {m m' : Mem} {root vpn : ℕ} {size : PageSize} {p : List (Fin 512)} {i : Fin 512}
    (hpath : (VirtPageNum.indices vpn).take size.targetLevel = p ++ [i])
    (hlt : ∀ f ∈ frames decode (tables m) root, f < 2 ^ 20) :
    unmap m (physToVirt (PhysAddr.ofPpn root)) vpn size = .ok m' ↔
      ∃ b, tableAt decode (tables m) root p = some b ∧ decode (tables m b i) ≠ .empty ∧
        m' = Function.update m (b * pageSize + 8 * i) PageTableEntry.empty := by
  rw [unmap, bumpFindPte, hpath, bumpFindLoop_eq fun q c _ hc => hlt c (mem_frames hc)]
  cases hb : tableAt decode (tables m) root p with
  | none => exact iff_of_false nofun fun ⟨b, hb, _⟩ => nomatch hb
  | some b =>
    have hblt := hlt b (mem_frames hb)
    simp only [Option.map_some, load_entry m hblt, store_entry m hblt, Option.some.injEq,
      exists_eq_left']
    cases hv : isValid (tables m b i) with
    | false => exact iff_of_false nofun fun ⟨hne, _⟩ => hne (decode_of_not_valid hv)
    | true =>
      have hne : decode (tables m b i) ≠ .empty := fun h => by
        rw [decode_eq_empty.mp h] at hv
        cases hv
      rw [and_iff_right hne]
      exact ⟨fun h => (Except.ok.inj h).symm, fun h => congrArg Except.ok h.symm⟩

/-- The lookups read a valid entry, and a second one from the page that the first one names, and one
of the two is a leaf. -/
def MisreadsLeaf (m : Mem) (self vpn : ℕ) : Prop :=
  let pte := m.load (self + 8 * Fin.ofNat 512 (vpn >>> 9 >>> 9))
  let next := m.load (physToVirt (PhysAddr.ofPpn (ppn pte)) + 8 * Fin.ofNat 512 (vpn >>> 9))
  isValid pte ∧ isValid next ∧ (isLeaf pte ∨ isLeaf next)

/-- **The two lookups of a page agree** except where a leaf stands on the path above the last level
and is taken for a table with a valid entry. -/
theorem findPte_eq_bumpFindPte_iff (m : Mem) (self vpn : ℕ) :
    findPte m self vpn = bumpFindPte m self vpn .fourKB ↔ ¬ MisreadsLeaf m self vpn := by
  simp only [findPte, bumpFindPte, VirtPageNum.indices, PageSize.targetLevel, List.take_succ_cons,
    List.take_zero, findLoop, bumpFindLoop, MisreadsLeaf]
  generalize m.load (self + 8 * Fin.ofNat 512 (vpn >>> 9 >>> 9)) = pte
  generalize m.load (physToVirt (PhysAddr.ofPpn (ppn pte)) + 8 * Fin.ofNat 512 (vpn >>> 9)) = next
  cases isValid pte <;> cases isLeaf pte <;> cases isValid next <;> cases isLeaf next <;> simp

/-- A root table in the frame `0x80300` of a memory that is zero, with 4 MiB of RAM behind it. -/
def sampleBoot : Boot := ⟨fun _ => 0, ⟨⟨[⟨0x80400000, 0x400000⟩], 0x400000⟩, .new, .new⟩⟩

/-- A page of 2 MiB is mapped in the linear window, at the first of its pages. `bump_find_pte` finds
no entry of one page for it, and `find_pte` returns a pointer to its first word. -/
theorem findPte_large_page : ∃ s,
    bumpMap 0x80200000 sampleBoot 0x80300000 0xFFFFFFFF80400 0x80400 (PTEFlags.r ||| PTEFlags.w)
      .twoMB = .ok s ∧
    bumpFindPte s.mem (physToVirt 0x80300000) 0xFFFFFFFF80400 .fourKB = none ∧
    findPte s.mem (physToVirt 0x80300000) 0xFFFFFFFF80400 = some 0xFFFFFFFF80400000 := by
  obtain ⟨s, hs, hlookups⟩ := exists_of_map_eq_ok (f := fun s : Boot =>
    (bumpFindPte s.mem (physToVirt 0x80300000) 0xFFFFFFFF80400 .fourKB,
      findPte s.mem (physToVirt 0x80300000) 0xFFFFFFFF80400)) (show
    (bumpMap 0x80200000 sampleBoot 0x80300000 0xFFFFFFFF80400 0x80400 (PTEFlags.r ||| PTEFlags.w)
      .twoMB).map _ = .ok (none, some 0xFFFFFFFF80400000) by decide +kernel)
  exact ⟨s, hs, congrArg Prod.fst hlookups, congrArg Prod.snd hlookups⟩

end PageTable

end CharlotteOs
