import Mathlib.Data.List.Basic
import Mathlib.Data.List.TakeWhile

/-!
# Ipv6 — addresses and their text

An address is eight groups of 16 bits.  Its text has the groups in hexadecimal without leading
zeros, and the first longest run of two or more zero groups as `::`.
-/

namespace Clemvion.Library

/-! ## 1. Hexadecimal groups -/

/-- The digit of a number below 16. -/
def hexDigit (n : Nat) : Char := Char.ofNat (if n < 10 then 48 + n else 87 + n)

def hexValue (c : Char) : Nat := if c.toNat < 58 then c.toNat - 48 else c.toNat - 87

/-- `[0-9a-f]`. -/
def isHexDigit (c : Char) : Bool := ('0' ≤ c && c ≤ '9') || ('a' ≤ c && c ≤ 'f')

theorem hexDigit_spec {n : Nat} (h : n < 16) : hexValue (hexDigit n) = n ∧ isHexDigit (hexDigit n) = true := by
  have hall : ∀ m < 16, hexValue (hexDigit m) = m ∧ isHexDigit (hexDigit m) = true := by decide
  exact hall n h

theorem hexDigit_inj {m n : Nat} (hm : m < 16) (hn : n < 16) (h : hexDigit m = hexDigit n) : m = n := by
  rw [← (hexDigit_spec hm).1, ← (hexDigit_spec hn).1, h]

/-- The number that digits stand for. -/
def parseHex (digits : List Char) : Nat := digits.foldl (fun value c => value * 16 + hexValue c) 0

/-- A group without leading zeros. -/
def hexText (g : UInt16) : List Char :=
  let n := g.toNat
  if n < 16 then [hexDigit n]
  else if n < 256 then [hexDigit (n / 16), hexDigit (n % 16)]
  else if n < 4096 then [hexDigit (n / 256), hexDigit (n / 16 % 16), hexDigit (n % 16)]
  else [hexDigit (n / 4096), hexDigit (n / 256 % 16), hexDigit (n / 16 % 16), hexDigit (n % 16)]

/-- The digits of a group, by their number. -/
theorem hexText_cases (g : UInt16) :
    (∃ x, x < 16 ∧ g.toNat = x ∧ hexText g = [hexDigit x]) ∨
      (∃ x y, 0 < x ∧ x < 16 ∧ y < 16 ∧ g.toNat = x * 16 + y ∧ hexText g = [hexDigit x, hexDigit y]) ∨
      (∃ x y z, 0 < x ∧ x < 16 ∧ y < 16 ∧ z < 16 ∧ g.toNat = (x * 16 + y) * 16 + z ∧
        hexText g = [hexDigit x, hexDigit y, hexDigit z]) ∨
      ∃ x y z w, 0 < x ∧ x < 16 ∧ y < 16 ∧ z < 16 ∧ w < 16 ∧ g.toNat = ((x * 16 + y) * 16 + z) * 16 + w ∧
        hexText g = [hexDigit x, hexDigit y, hexDigit z, hexDigit w] := by
  have hg : g.toNat < 65536 := g.toNat_lt
  unfold hexText
  by_cases h1 : g.toNat < 16
  · exact Or.inl ⟨g.toNat, h1, rfl, by simp only [if_pos h1]⟩
  by_cases h2 : g.toNat < 256
  · refine Or.inr (Or.inl ⟨g.toNat / 16, g.toNat % 16, ?_, ?_, ?_, ?_, by simp only [if_neg h1, if_pos h2]⟩) <;> omega
  by_cases h3 : g.toNat < 4096
  · refine Or.inr (Or.inr (Or.inl ⟨g.toNat / 256, g.toNat / 16 % 16, g.toNat % 16, ?_, ?_, ?_, ?_, ?_,
      by simp only [if_neg h1, if_neg h2, if_pos h3]⟩)) <;> omega
  · refine Or.inr (Or.inr (Or.inr ⟨g.toNat / 4096, g.toNat / 256 % 16, g.toNat / 16 % 16, g.toNat % 16,
      ?_, ?_, ?_, ?_, ?_, ?_, by simp only [if_neg h1, if_neg h2, if_neg h3]⟩)) <;> omega

/-- One to four digits that stand for the group. -/
theorem hexText_spec (g : UInt16) :
    parseHex (hexText g) = g.toNat ∧ 1 ≤ (hexText g).length ∧ (hexText g).length ≤ 4 ∧
      ∀ c ∈ hexText g, isHexDigit c = true := by
  rcases hexText_cases g with ⟨x, hx, hn, h⟩ | ⟨x, y, -, hx, hy, hn, h⟩ | ⟨x, y, z, -, hx, hy, hz, hn, h⟩ |
    ⟨x, y, z, w, -, hx, hy, hz, hw, hn, h⟩
  · rw [h, hn]
    simp [parseHex, hexDigit_spec hx]
  · rw [h, hn]
    simp [parseHex, hexDigit_spec hx, hexDigit_spec hy]
  · rw [h, hn]
    simp [parseHex, hexDigit_spec hx, hexDigit_spec hy, hexDigit_spec hz]
  · rw [h, hn]
    simp [parseHex, hexDigit_spec hx, hexDigit_spec hy, hexDigit_spec hz, hexDigit_spec hw]

theorem colon_notMem_hexText (g : UInt16) : ':' ∉ hexText g := by
  intro h
  have := (hexText_spec g).2.2.2 ':' h
  revert this
  decide

theorem hexDigit_eq_iff {m n : Nat} (hm : m < 16) (hn : n < 16) : hexDigit m = hexDigit n ↔ m = n :=
  ⟨hexDigit_inj hm hn, congrArg hexDigit⟩

theorem hexDigit_ne_colon {n : Nat} (h : n < 16) : hexDigit n ≠ ':' := by
  intro heq
  have := (hexDigit_spec h).2
  rw [heq] at this
  revert this
  decide

/-- Two digits stand in front of a group exactly when they are its leading digits. -/
theorem prefix_hexText_two {x y : Nat} (hx : 0 < x) (hx' : x < 16) (hy : y < 16) (g : UInt16) (rest : List Char) :
    [hexDigit x, hexDigit y] <+: hexText g ++ ':' :: rest ↔
      g.toNat = x * 16 + y ∨ g.toNat / 16 = x * 16 + y ∨ g.toNat / 256 = x * 16 + y := by
  rcases hexText_cases g with ⟨a, ha, hn, h⟩ | ⟨a, b, ha0, ha, hb, hn, h⟩ | ⟨a, b, c, ha0, ha, hb, hc, hn, h⟩ |
    ⟨a, b, c, d, ha0, ha, hb, hc, hd, hn, h⟩
  · simp [h, List.cons_prefix_cons, hexDigit_ne_colon hy]
    omega
  · simp [h, List.cons_prefix_cons, hexDigit_eq_iff hx' ha, hexDigit_eq_iff hy hb]
    omega
  · simp [h, List.cons_prefix_cons, hexDigit_eq_iff hx' ha, hexDigit_eq_iff hy hb]
    omega
  · simp [h, List.cons_prefix_cons, hexDigit_eq_iff hx' ha, hexDigit_eq_iff hy hb]
    omega

/-- Three digits stand in front of a group exactly when they are its leading digits. -/
theorem prefix_hexText_three {x y z : Nat} (hx : 0 < x) (hx' : x < 16) (hy : y < 16) (hz : z < 16) (g : UInt16)
    (rest : List Char) :
    [hexDigit x, hexDigit y, hexDigit z] <+: hexText g ++ ':' :: rest ↔
      g.toNat = (x * 16 + y) * 16 + z ∨ g.toNat / 16 = (x * 16 + y) * 16 + z := by
  rcases hexText_cases g with ⟨a, ha, hn, h⟩ | ⟨a, b, ha0, ha, hb, hn, h⟩ | ⟨a, b, c, ha0, ha, hb, hc, hn, h⟩ |
    ⟨a, b, c, d, ha0, ha, hb, hc, hd, hn, h⟩
  · simp [h, List.cons_prefix_cons, hexDigit_ne_colon hy]
    omega
  · simp [h, List.cons_prefix_cons, hexDigit_ne_colon hz]
    omega
  · simp [h, List.cons_prefix_cons, hexDigit_eq_iff hx' ha, hexDigit_eq_iff hy hb, hexDigit_eq_iff hz hc]
    omega
  · simp [h, List.cons_prefix_cons, hexDigit_eq_iff hx' ha, hexDigit_eq_iff hy hb, hexDigit_eq_iff hz hc]
    omega

/-! ## 2. Addresses -/

/-- The eight groups, the last two of which hold an embedded IPv4 address. -/
structure Ipv6Address where
  a : UInt16
  b : UInt16
  c : UInt16
  d : UInt16
  e : UInt16
  f : UInt16
  hi : UInt16
  lo : UInt16
  deriving DecidableEq

namespace Ipv6Address

def groups (address : Ipv6Address) : List UInt16 :=
  [address.a, address.b, address.c, address.d, address.e, address.f, address.hi, address.lo]

/-- How many zero groups the list starts with. -/
def zeroRun (groups : List UInt16) : Nat := (groups.takeWhile (· = 0)).length

/-- Where the first longest run of zero groups starts, when it has more than one group. -/
def compressedIndex (groups : List UInt16) : Option Nat :=
  let best := (List.range groups.length).foldl
    (fun best i => if zeroRun (groups.drop i) > zeroRun (groups.drop best) then i else best) 0
  if 2 ≤ zeroRun (groups.drop best) then some best else none

def joinColons (groups : List UInt16) : List Char := [':'].intercalate (groups.map hexText)

/-- The text of an address. -/
def serialize (address : Ipv6Address) : List Char :=
  match compressedIndex address.groups with
  | none => joinColons address.groups
  | some i =>
    joinColons (address.groups.take i) ++ ':' :: ':' ::
      joinColons (address.groups.drop (i + zeroRun (address.groups.drop i)))

theorem length_groups (address : Ipv6Address) : address.groups.length = 8 := rfl

theorem take_zeroRun (groups : List UInt16) : groups.take (zeroRun groups) = List.replicate (zeroRun groups) 0 := by
  unfold zeroRun
  rw [← List.prefix_iff_eq_take.mp (List.takeWhile_prefix _)]
  apply List.eq_replicate_of_mem
  intro g hg
  simpa using List.mem_takeWhile_imp hg

/-- The groups as they are, or with a run of zeros taken out. -/
theorem serialize_cases (address : Ipv6Address) :
    address.serialize = joinColons address.groups ∨
      ∃ head run tail, 2 ≤ run ∧ address.groups = head ++ List.replicate run 0 ++ tail ∧
        address.serialize = joinColons head ++ ':' :: ':' :: joinColons tail := by
  unfold serialize
  cases hindex : compressedIndex address.groups with
  | none => exact Or.inl rfl
  | some i =>
    have hrun : 2 ≤ zeroRun (address.groups.drop i) := by
      unfold compressedIndex at hindex
      simp only [Option.ite_none_right_eq_some, Option.some.injEq] at hindex
      rw [← hindex.2]
      exact hindex.1
    refine Or.inr ⟨_, zeroRun (address.groups.drop i), _, hrun, ?_, rfl⟩
    rw [← take_zeroRun, ← List.drop_drop, List.append_assoc, List.take_append_drop, List.take_append_drop]

theorem joinColons_cons_cons (g g' : UInt16) (groups : List UInt16) :
    joinColons (g :: g' :: groups) = hexText g ++ ':' :: joinColons (g' :: groups) := by
  simp [joinColons, List.intercalate]

@[simp] theorem joinColons_singleton (g : UInt16) : joinColons [g] = hexText g := by
  simp [joinColons]

@[simp] theorem joinColons_nil : joinColons [] = [] := rfl

/-- A character that may stand in the text of an address. -/
def IsTextChar (c : Char) : Prop := isHexDigit c = true ∨ c = ':'

theorem isTextChar_joinColons (groups : List UInt16) : ∀ c ∈ joinColons groups, IsTextChar c := by
  induction groups with
  | nil => simp
  | cons g rest ih =>
    have hg : ∀ c ∈ hexText g, IsTextChar c := fun c hc => Or.inl ((hexText_spec g).2.2.2 c hc)
    cases rest with
    | nil => simpa using hg
    | cons g' rest =>
      rw [joinColons_cons_cons]
      exact List.forall_mem_append.mpr ⟨hg, List.forall_mem_cons.mpr ⟨Or.inr rfl, ih⟩⟩

theorem isTextChar_serialize (address : Ipv6Address) : ∀ c ∈ address.serialize, IsTextChar c := by
  rcases serialize_cases address with h | ⟨head, run, tail, -, -, h⟩
  · rw [h]
    exact isTextChar_joinColons _
  · rw [h]
    exact List.forall_mem_append.mpr ⟨isTextChar_joinColons head,
      List.forall_mem_cons.mpr ⟨Or.inr rfl, List.forall_mem_cons.mpr ⟨Or.inr rfl, isTextChar_joinColons tail⟩⟩⟩

/-- The text starts with the first group, or with the `::` that stands for it. -/
theorem serialize_start (address : Ipv6Address) :
    ∃ rest, address.serialize = hexText address.a ++ ':' :: rest ∨
      (address.serialize = ':' :: rest ∧ address.a = 0) := by
  rcases serialize_cases address with h | ⟨head, run, tail, hrun, hgroups, h⟩
  · rw [h]
    unfold groups
    rw [joinColons_cons_cons]
    exact ⟨_, Or.inl rfl⟩
  · rw [h]
    unfold groups at hgroups
    cases head with
    | nil =>
      obtain ⟨n, rfl⟩ : ∃ n, run = n + 1 := ⟨run - 1, by omega⟩
      rw [List.nil_append, List.replicate_succ, List.cons_append] at hgroups
      exact ⟨_, Or.inr ⟨rfl, (List.cons.inj hgroups).1⟩⟩
    | cons g head =>
      have hg : address.a = g := (List.cons.inj hgroups).1
      rw [hg]
      cases head with
      | nil => exact ⟨_, Or.inl (by rw [joinColons_singleton])⟩
      | cons g' head =>
        rw [joinColons_cons_cons, List.append_assoc]
        exact ⟨_, Or.inl rfl⟩

theorem colon_mem_serialize (address : Ipv6Address) : ':' ∈ address.serialize := by
  obtain ⟨rest, h | ⟨h, -⟩⟩ := serialize_start address
  · rw [h]
    simp
  · rw [h]
    simp

end Ipv6Address

end Clemvion.Library
