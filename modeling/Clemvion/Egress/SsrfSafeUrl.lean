import Clemvion.Library.Ipv6
import Clemvion.Library.Regex

/-!
# SsrfSafeUrl — which IPv6 addresses are private

`isPrivateIpv6` reads the text that the URL parser writes for an address: the embedded IPv4 forms by
their groups, the two private ranges by the first characters.  A first group of two or three digits
has the same first characters as a range of four.
-/

open Clemvion.Library Clemvion.Library.Ipv6Address

namespace Clemvion.Egress

/-! ## 1. IPv4 -/

private def digit : Regex := .char Char.isDigit

/-- `\d{1,3}`. -/
private def octet : Regex := .seq digit (.opt (.seq digit (.opt digit)))

/-- `regex.test(s)` for `/^…/`. -/
def matchesStart (r : Regex) (s : List Char) : Bool := (r.matchAt some ⟨[], s⟩).isSome

/-- `regex.test(s)` for `/^…$/`. -/
def matchesAll (r : Regex) (s : List Char) : Bool :=
  (r.matchAt (fun at_ => if at_.rest.isEmpty then some () else none) ⟨[], s⟩).isSome

private def between (low high : Char) : Regex := .char fun c => low ≤ c && c ≤ high

def privateIpv4Patterns : List Regex :=
  [.text "10.", .text "127.",
    .chain [.text "172.", .oneOf (.seq (.text "1") (between '6' '9'))
      [.seq (.text "2") (between '0' '9'), .seq (.text "3") (between '0' '1')], .text "."],
    .text "192.168.", .text "169.254.",
    .chain [.text "100.", .oneOf (.seq (.text "6") (between '4' '9'))
      [.seq (between '7' '9') (between '0' '9'),
        .chain [.text "1", between '0' '1', between '0' '9'],
        .seq (.text "12") (between '0' '7')], .text "."],
    .text "0."]

def ipv4Regex : Regex := .chain [octet, .text ".", octet, .text ".", octet, .text ".", octet]

def isLiteralIpv4 (host : List Char) : Bool := matchesAll ipv4Regex host

def isPrivateIpv4 (host : List Char) : Bool :=
  if !isLiteralIpv4 host then false else privateIpv4Patterns.any fun p => matchesStart p host

/-! ## 2. IPv6 -/

/-- `/^[0-9a-fA-F:.]+$/`. -/
def isIpv6Text (s : List Char) : Bool :=
  s ≠ [] && s.all fun c => isHexDigit c || ('A' ≤ c && c ≤ 'F') || c = ':' || c = '.'

/-- `s.slice(1, -1)`. -/
def sliceInner (s : List Char) : List Char := (s.drop 1).dropLast

/-- `hostname url` is `new URL(url).hostname`, or `none` where the constructor throws. -/
def normalizeIpv6Literal (hostname : List Char → Option (List Char)) (host : List Char) : Option (List Char) :=
  let unbracketed := if host.head? = some '[' ∧ host.getLast? = some ']' then sliceInner host else host
  let withoutZone := unbracketed.takeWhile (· ≠ '%')
  if ':' ∉ withoutZone ∨ !isIpv6Text withoutZone then none
  else (hostname ("http://[".toList ++ withoutZone ++ "]/".toList)).map sliceInner

/-- `s.split('::')`. -/
def splitDoubleColon : List Char → List (List Char)
  | [] => [[]]
  | [c] => [[c]]
  | c :: c' :: rest =>
    if c = ':' ∧ c' = ':' then [] :: splitDoubleColon rest
    else (splitDoubleColon (c' :: rest)).modifyHead (c :: ·)

/-- `half ? half.split(':') : []`. -/
def splitHalf (half : List Char) : List (List Char) := if half = [] then [] else half.splitOn ':'

/-- `/^[0-9a-f]{1,4}$/`. -/
def isGroup (g : List Char) : Bool := 1 ≤ g.length && g.length ≤ 4 && g.all isHexDigit

def ipv6Groups (normalized : List Char) : Option (List Nat) :=
  let halves := splitDoubleColon normalized
  if halves.length > 2 then none
  else
    let head := splitHalf (halves[0]?.getD [])
    let tail := if halves.length = 2 then splitHalf (halves[1]?.getD []) else []
    let fill : Int := if halves.length = 2 then 8 - head.length - tail.length else 0
    if halves.length = 2 ∧ fill < 1 then none
    else
      let groups := head ++ List.replicate fill.toNat ['0'] ++ tail
      if groups.length ≠ 8 then none
      else if !groups.all isGroup then none
      else some (groups.map parseHex)

/-- `` `${hi >> 8}.${hi & 0xff}.${lo >> 8}.${lo & 0xff}` ``. -/
def dottedIpv4 (hi lo : Nat) : List Char :=
  (toString (hi >>> 8)).toList ++ '.' :: (toString (hi &&& 0xff)).toList ++ '.' ::
    (toString (lo >>> 8)).toList ++ '.' :: (toString (lo &&& 0xff)).toList

def embeddedIpv4FromIpv6 (normalized : List Char) : Option (List Char) :=
  match ipv6Groups normalized with
  | some [a, b, c, d, e, f, hi, lo] =>
    let zeroPrefix := a = 0 ∧ b = 0 ∧ c = 0 ∧ d = 0
    if (zeroPrefix ∧ e = 0 ∧ (f = 0xffff ∨ f = 0)) ∨ (zeroPrefix ∧ e = 0xffff ∧ f = 0) ∨
        (a = 0x64 ∧ b = 0xff9b ∧ c = 0 ∧ d = 0 ∧ e = 0 ∧ f = 0) then
      some (dottedIpv4 hi lo)
    else none
  | _ => none

def linkLocalStarts : List String := ["fe80:", "fe8", "fe9", "fea", "feb"]
def uniqueLocalStarts : List String := ["fc", "fd"]

def isPrivateIpv6 (hostname : List Char → Option (List Char)) (host : List Char) : Bool :=
  match normalizeIpv6Literal hostname host with
  | none => false
  | some lower =>
    if lower = "::1".toList ∨ lower = "::".toList then true
    else if linkLocalStarts.any fun start => start.toList.isPrefixOf lower then true
    else if uniqueLocalStarts.any fun start => start.toList.isPrefixOf lower then true
    else (embeddedIpv4FromIpv6 lower).any isPrivateIpv4

/-! ## 3. The groups of a serialized address -/

theorem splitDoubleColon_cons {c : Char} (h : c ≠ ':') (s : List Char) :
    splitDoubleColon (c :: s) = (splitDoubleColon s).modifyHead (c :: ·) := by
  cases s with
  | nil => rfl
  | cons c' rest => rw [splitDoubleColon, if_neg (fun hc => h hc.1)]

theorem splitDoubleColon_colon {c : Char} (h : c ≠ ':') (s : List Char) :
    splitDoubleColon (':' :: c :: s) = (splitDoubleColon (c :: s)).modifyHead (':' :: ·) := by
  rw [splitDoubleColon, if_neg (fun hc => h hc.2)]

theorem modifyHead_cons_modifyHead {α : Type*} (c : α) (x : List α) (parts : List (List α)) :
    (parts.modifyHead (x ++ ·)).modifyHead (c :: ·) = parts.modifyHead ((c :: x) ++ ·) := by
  cases parts <;> rfl

theorem splitDoubleColon_append {x : List Char} (h : ':' ∉ x) (s : List Char) :
    splitDoubleColon (x ++ s) = (splitDoubleColon s).modifyHead (x ++ ·) := by
  induction x with
  | nil => cases hs : splitDoubleColon s <;> simp [hs]
  | cons c x ih =>
    rw [List.mem_cons, not_or] at h
    rw [List.cons_append, splitDoubleColon_cons (Ne.symm h.1), ih h.2, modifyHead_cons_modifyHead]

/-- Groups joined by single colons stand in one piece. -/
theorem splitDoubleColon_joinColons (groups : List UInt16) (s : List Char) :
    splitDoubleColon (joinColons groups ++ s) = (splitDoubleColon s).modifyHead (joinColons groups ++ ·) := by
  induction groups with
  | nil => cases hs : splitDoubleColon s <;> simp [hs]
  | cons g rest ih =>
    cases rest with
    | nil => rw [joinColons_singleton, splitDoubleColon_append (colon_notMem_hexText g)]
    | cons g' rest =>
      -- a digit follows the colon
      obtain ⟨c, more, hc, hjoin⟩ : ∃ c more, c ≠ ':' ∧ joinColons (g' :: rest) = c :: more := by
        obtain ⟨c, more, hg⟩ := List.exists_cons_of_ne_nil
          (show hexText g' ≠ [] from List.ne_nil_of_length_pos (hexText_spec g').2.1)
        have hc : c ≠ ':' := fun heq => colon_notMem_hexText g' (by rw [hg, heq]; simp)
        cases rest with
        | nil => exact ⟨c, more, hc, by rw [joinColons_singleton, hg]⟩
        | cons g'' rest => exact ⟨c, _, hc, by rw [joinColons_cons_cons, hg]; rfl⟩
      rw [joinColons_cons_cons, List.append_assoc, splitDoubleColon_append (colon_notMem_hexText g), List.cons_append]
      rw [hjoin] at ih ⊢
      rw [List.cons_append] at ih ⊢
      rw [splitDoubleColon_colon hc, ih]
      cases hs : splitDoubleColon s <;> simp

theorem splitHalf_joinColons (groups : List UInt16) : splitHalf (joinColons groups) = groups.map hexText := by
  cases groups with
  | nil => rfl
  | cons g rest =>
    have hne : joinColons (g :: rest) ≠ [] := by
      have hg : hexText g ≠ [] := List.ne_nil_of_length_pos (hexText_spec g).2.1
      cases rest with
      | nil => rwa [joinColons_singleton]
      | cons g' rest =>
        rw [joinColons_cons_cons]
        simp [hg]
    unfold splitHalf
    rw [if_neg hne]
    unfold joinColons
    rw [List.splitOn_intercalate]
    · intro l hl
      obtain ⟨g', -, rfl⟩ := List.mem_map.mp hl
      exact colon_notMem_hexText g'
    · simp

theorem isGroup_hexText (g : UInt16) : isGroup (hexText g) = true := by
  obtain ⟨-, hpos, hle, hall⟩ := hexText_spec g
  unfold isGroup
  rw [Bool.and_eq_true, Bool.and_eq_true, decide_eq_true_iff, decide_eq_true_iff, List.all_eq_true]
  exact ⟨⟨hpos, hle⟩, hall⟩

/-- Groups as texts, with the zeros that were filled in, are read back. -/
theorem read_groups {texts : List (List Char)} {groups : List UInt16} (hlength : groups.length = 8)
    (h : texts = groups.map hexText) :
    (if texts.length ≠ 8 then none
      else if !texts.all isGroup then none else some (texts.map parseHex)) =
      some (groups.map UInt16.toNat) := by
  have hall : texts.all isGroup = true := by
    rw [List.all_eq_true, h]
    intro t ht
    obtain ⟨g, -, rfl⟩ := List.mem_map.mp ht
    exact isGroup_hexText g
  rw [if_neg (by rw [h, List.length_map, hlength]; simp), hall, if_neg (by simp), h, List.map_map]
  exact congrArg some (List.map_congr_left fun g _ => (hexText_spec g).1)

/-- **The groups of the text of an address are its groups.** -/
theorem ipv6Groups_serialize (address : Ipv6Address) :
    ipv6Groups address.serialize = some (address.groups.map UInt16.toNat) := by
  rcases serialize_cases address with h | ⟨head, run, tail, hrun, hgroups, h⟩
  · have hsplit : splitDoubleColon address.serialize = [joinColons address.groups] := by
      rw [h]
      simpa [splitDoubleColon] using splitDoubleColon_joinColons address.groups []
    unfold ipv6Groups
    simp only [hsplit]
    exact read_groups address.length_groups (by simp [splitHalf_joinColons])
  · have hsplit : splitDoubleColon address.serialize = [joinColons head, joinColons tail] := by
      have htail := splitDoubleColon_joinColons tail []
      rw [h, splitDoubleColon_joinColons]
      simp only [List.append_nil] at htail
      rw [splitDoubleColon, if_pos ⟨rfl, rfl⟩, htail]
      simp [splitDoubleColon]
    have hlength : head.length + run + tail.length = 8 := by
      rw [← address.length_groups, hgroups]
      simp
      omega
    have hfill : (8 - (head.map hexText).length - (tail.map hexText).length : Int) = run := by
      rw [List.length_map, List.length_map]
      omega
    have htexts : head.map hexText ++ List.replicate run ['0'] ++ tail.map hexText = address.groups.map hexText := by
      rw [hgroups, List.map_append, List.map_append, List.map_replicate]
      rfl
    unfold ipv6Groups
    simp only [hsplit, List.getElem?_cons_zero, List.getElem?_cons_succ, Option.getD_some, List.length_cons,
      List.length_nil, splitHalf_joinColons, if_true, true_and]
    rw [if_neg (by omega), hfill, if_neg (by omega), Int.toNat_natCast]
    exact read_groups address.length_groups htexts

/-! ## 4. Which addresses are private -/

/-- The URL parser gives a serialized address back. -/
def KeepsSerialized (hostname : List Char → Option (List Char)) : Prop :=
  ∀ address : Ipv6Address,
    hostname ("http://[".toList ++ address.serialize ++ "]/".toList) = some ('[' :: address.serialize ++ [']'])

theorem sliceInner_brackets (s : List Char) : sliceInner ('[' :: s ++ [']']) = s := by
  unfold sliceInner
  rw [List.cons_append, List.drop_one, List.tail_cons, List.dropLast_concat]

theorem isTextChar_ne {c d : Char} (h : IsTextChar c) (hd : ¬ IsTextChar d) : c ≠ d := fun heq => hd (heq ▸ h)

instance (c : Char) : Decidable (IsTextChar c) := inferInstanceAs (Decidable (_ ∨ _))

/-- A serialized address is its own normal form. -/
theorem normalizeIpv6Literal_serialize {hostname : List Char → Option (List Char)} (h : KeepsSerialized hostname)
    (address : Ipv6Address) : normalizeIpv6Literal hostname address.serialize = some address.serialize := by
  have hchars := isTextChar_serialize address
  have hcolon := colon_mem_serialize address
  have hne : address.serialize ≠ [] := List.ne_nil_of_mem hcolon
  have hbracket : ¬ (address.serialize.head? = some '[' ∧ address.serialize.getLast? = some ']') := by
    rintro ⟨hhead, -⟩
    have := hchars '[' (List.mem_of_head? hhead)
    revert this
    decide
  have hzone : address.serialize.takeWhile (· ≠ '%') = address.serialize := by
    rw [List.takeWhile_eq_self_iff]
    intro c hc
    simpa using isTextChar_ne (hchars c hc) (show ¬ IsTextChar '%' by decide)
  have htext : isIpv6Text address.serialize = true := by
    unfold isIpv6Text
    rw [Bool.and_eq_true, decide_eq_true_iff, List.all_eq_true]
    refine ⟨hne, fun c hc => ?_⟩
    rcases hchars c hc with hhex | hcolon'
    · simp [hhex]
    · simp [hcolon']
  unfold normalizeIpv6Literal
  simp only [if_neg hbracket, hzone]
  rw [if_neg (by rw [htext]; simp [hcolon]), h address]
  exact congrArg some (sliceInner_brackets _)

/-- `fe80::/10`. -/
def LinkLocal (address : Ipv6Address) : Prop := 0xfe80 ≤ address.a.toNat ∧ address.a.toNat ≤ 0xfebf

/-- `fc00::/7`. -/
def UniqueLocal (address : Ipv6Address) : Prop := 0xfc00 ≤ address.a.toNat ∧ address.a.toNat ≤ 0xfdff

/-- The groups in front of the embedded address. -/
def StartsWith (address : Ipv6Address) (a b c d e f : UInt16) : Prop :=
  address.a = a ∧ address.b = b ∧ address.c = c ∧ address.d = d ∧ address.e = e ∧ address.f = f

/-- The IPv4-mapped, IPv4-compatible, translated and NAT64 forms. -/
def EmbedsIpv4 (address : Ipv6Address) : Prop :=
  StartsWith address 0 0 0 0 0 0xffff ∨ StartsWith address 0 0 0 0 0 0 ∨ StartsWith address 0 0 0 0 0xffff 0 ∨
    StartsWith address 0x64 0xff9b 0 0 0 0

/-- What a private address is. -/
def PrivateAddress (address : Ipv6Address) : Prop :=
  address = ⟨0, 0, 0, 0, 0, 0, 0, 0⟩ ∨ address = ⟨0, 0, 0, 0, 0, 0, 0, 1⟩ ∨ LinkLocal address ∨
    UniqueLocal address ∨
    (EmbedsIpv4 address ∧ isPrivateIpv4 (dottedIpv4 address.hi.toNat address.lo.toNat) = true)

/-- A first group of two or three digits that reads like the first digits of a private range. -/
def ShortFirstGroup (address : Ipv6Address) : Prop :=
  (0xfe8 ≤ address.a.toNat ∧ address.a.toNat ≤ 0xfeb) ∨ (0xfc ≤ address.a.toNat ∧ address.a.toNat ≤ 0xfd) ∨
    (0xfc0 ≤ address.a.toNat ∧ address.a.toNat ≤ 0xfdf)

theorem embeddedIpv4_serialize (address : Ipv6Address) :
    (EmbedsIpv4 address →
        embeddedIpv4FromIpv6 address.serialize = some (dottedIpv4 address.hi.toNat address.lo.toNat)) ∧
      (¬ EmbedsIpv4 address → embeddedIpv4FromIpv6 address.serialize = none) := by
  unfold embeddedIpv4FromIpv6
  rw [ipv6Groups_serialize]
  have hiff : EmbedsIpv4 address ↔
      (((address.a.toNat = 0 ∧ address.b.toNat = 0 ∧ address.c.toNat = 0 ∧ address.d.toNat = 0) ∧
          address.e.toNat = 0 ∧ (address.f.toNat = 0xffff ∨ address.f.toNat = 0)) ∨
        ((address.a.toNat = 0 ∧ address.b.toNat = 0 ∧ address.c.toNat = 0 ∧ address.d.toNat = 0) ∧
          address.e.toNat = 0xffff ∧ address.f.toNat = 0) ∨
        (address.a.toNat = 0x64 ∧ address.b.toNat = 0xff9b ∧ address.c.toNat = 0 ∧ address.d.toNat = 0 ∧
          address.e.toNat = 0 ∧ address.f.toNat = 0)) := by
    unfold EmbedsIpv4 StartsWith
    simp only [← UInt16.toNat_inj]
    show (_ ∧ _) ∨ (_ ∧ _) ∨ (_ ∧ _) ∨ (_ ∧ _) ↔ _
    simp only [UInt16.toNat_ofNat]
    omega
  constructor
  · intro h
    exact if_pos (hiff.mp h)
  · intro h
    exact if_neg fun hcond => h (hiff.mpr hcond)

/-- Two addresses of one text have the same groups. -/
theorem address_of_serialize {address : Ipv6Address} {text : List Char} {other : Ipv6Address}
    (htext : ipv6Groups text = some (other.groups.map UInt16.toNat)) (h : address.serialize = text) :
    address = other := by
  have hgroups := ipv6Groups_serialize address
  rw [h, htext] at hgroups
  have hmap := Option.some.inj hgroups
  simp only [groups, List.map_cons, List.map_nil, List.cons.injEq, UInt16.toNat_inj, and_true] at hmap
  obtain ⟨ha, hb, hc, hd, he, hf, hhi, hlo⟩ := hmap
  cases address
  cases other
  simp_all

theorem serialize_eq_loopback_iff (address : Ipv6Address) :
    address.serialize = "::1".toList ↔ address = ⟨0, 0, 0, 0, 0, 0, 0, 1⟩ := by
  constructor
  · exact address_of_serialize (by decide)
  · rintro rfl
    decide

theorem serialize_eq_unspecified_iff (address : Ipv6Address) :
    address.serialize = "::".toList ↔ address = ⟨0, 0, 0, 0, 0, 0, 0, 0⟩ := by
  constructor
  · exact address_of_serialize (by decide)
  · rintro rfl
    decide

/-- The first characters `fe8`, `fe9`, `fea` and `feb`, as numbers. -/
theorem linkLocalStarts_iff (address : Ipv6Address) :
    (linkLocalStarts.any fun start => start.toList.isPrefixOf address.serialize) = true ↔
      LinkLocal address ∨ (0xfe8 ≤ address.a.toNat ∧ address.a.toNat ≤ 0xfeb) := by
  have hlong : "fe80:".toList <+: address.serialize → ['f', 'e', '8'] <+: address.serialize :=
    List.IsPrefix.trans (by decide)
  have hany : (linkLocalStarts.any fun start => start.toList.isPrefixOf address.serialize) = true ↔
      ['f', 'e', '8'] <+: address.serialize ∨ ['f', 'e', '9'] <+: address.serialize ∨
        ['f', 'e', 'a'] <+: address.serialize ∨ ['f', 'e', 'b'] <+: address.serialize := by
    simp only [linkLocalStarts, List.any_cons, List.any_nil, Bool.or_false, Bool.or_eq_true, List.isPrefixOf_iff_prefix]
    constructor
    · rintro (h | h)
      · exact Or.inl (hlong h)
      · exact h
    · exact Or.inr
  rw [hany]
  unfold LinkLocal
  obtain ⟨rest, h | ⟨h, hzero⟩⟩ := serialize_start address
  · rw [h]
    have h8 := prefix_hexText_three (x := 15) (y := 14) (z := 8) (by decide) (by decide) (by decide) (by decide)
      address.a rest
    have h9 := prefix_hexText_three (x := 15) (y := 14) (z := 9) (by decide) (by decide) (by decide) (by decide)
      address.a rest
    have ha := prefix_hexText_three (x := 15) (y := 14) (z := 10) (by decide) (by decide) (by decide) (by decide)
      address.a rest
    have hb := prefix_hexText_three (x := 15) (y := 14) (z := 11) (by decide) (by decide) (by decide) (by decide)
      address.a rest
    rw [show ['f', 'e', '8'] = [hexDigit 15, hexDigit 14, hexDigit 8] by decide, h8,
      show ['f', 'e', '9'] = [hexDigit 15, hexDigit 14, hexDigit 9] by decide, h9,
      show ['f', 'e', 'a'] = [hexDigit 15, hexDigit 14, hexDigit 10] by decide, ha,
      show ['f', 'e', 'b'] = [hexDigit 15, hexDigit 14, hexDigit 11] by decide, hb]
    omega
  · rw [h, hzero]
    simp [List.cons_prefix_cons]

/-- The first characters `fc` and `fd`, as numbers. -/
theorem uniqueLocalStarts_iff (address : Ipv6Address) :
    (uniqueLocalStarts.any fun start => start.toList.isPrefixOf address.serialize) = true ↔
      UniqueLocal address ∨ (0xfc ≤ address.a.toNat ∧ address.a.toNat ≤ 0xfd) ∨
        (0xfc0 ≤ address.a.toNat ∧ address.a.toNat ≤ 0xfdf) := by
  have hany : (uniqueLocalStarts.any fun start => start.toList.isPrefixOf address.serialize) = true ↔
      ['f', 'c'] <+: address.serialize ∨ ['f', 'd'] <+: address.serialize := by
    simp only [uniqueLocalStarts, List.any_cons, List.any_nil, Bool.or_false, Bool.or_eq_true,
      List.isPrefixOf_iff_prefix]
    rfl
  rw [hany]
  unfold UniqueLocal
  obtain ⟨rest, h | ⟨h, hzero⟩⟩ := serialize_start address
  · rw [h]
    have hc := prefix_hexText_two (x := 15) (y := 12) (by decide) (by decide) (by decide) address.a rest
    have hd := prefix_hexText_two (x := 15) (y := 13) (by decide) (by decide) (by decide) address.a rest
    rw [show ['f', 'c'] = [hexDigit 15, hexDigit 12] by decide, hc,
      show ['f', 'd'] = [hexDigit 15, hexDigit 13] by decide, hd]
    omega
  · rw [h, hzero]
    simp [List.cons_prefix_cons]

theorem ite_true_iff {p : Prop} [Decidable p] {b : Bool} : (if p then true else b) = true ↔ p ∨ b = true := by
  by_cases h : p <;> simp [h]

theorem tests_iff {zero one link short unique short' short'' embedded : Prop} :
    (one ∨ zero) ∨ (link ∨ short) ∨ (unique ∨ short' ∨ short'') ∨ embedded ↔
      (zero ∨ one ∨ link ∨ unique ∨ embedded) ∨ (short ∨ short' ∨ short'') := by
  tauto

/-- What `isPrivateIpv6` takes to be private. -/
theorem isPrivateIpv6_serialize {hostname : List Char → Option (List Char)} (h : KeepsSerialized hostname)
    (address : Ipv6Address) :
    isPrivateIpv6 hostname address.serialize = true ↔ PrivateAddress address ∨ ShortFirstGroup address := by
  obtain ⟨hembeds, hplain⟩ := embeddedIpv4_serialize address
  have hlast : (embeddedIpv4FromIpv6 address.serialize).any isPrivateIpv4 = true ↔
      EmbedsIpv4 address ∧ isPrivateIpv4 (dottedIpv4 address.hi.toNat address.lo.toNat) = true := by
    by_cases he : EmbedsIpv4 address
    · rw [hembeds he, and_iff_right he]
      rfl
    · rw [hplain he]
      exact iff_of_false Bool.false_ne_true fun hboth => he hboth.1
  unfold isPrivateIpv6
  rw [normalizeIpv6Literal_serialize h]
  simp only [ite_true_iff]
  rw [serialize_eq_loopback_iff, serialize_eq_unspecified_iff, linkLocalStarts_iff, uniqueLocalStarts_iff]
  exact (or_congr_right (or_congr_right (or_congr_right hlast))).trans tests_iff

/-- A short first group is in none of the private forms. -/
theorem not_private_of_shortFirstGroup {address : Ipv6Address} (h : ShortFirstGroup address) :
    ¬ PrivateAddress address := by
  unfold ShortFirstGroup at h
  have hne : address.a.toNat ≠ 0 ∧ address.a.toNat ≠ 0x64 := by omega
  rintro (rfl | rfl | hlink | hunique | ⟨hembeds, -⟩)
  · exact hne.1 rfl
  · exact hne.1 rfl
  · unfold LinkLocal at hlink
    omega
  · unfold UniqueLocal at hunique
    omega
  · rcases hembeds with h' | h' | h' | h'
    · exact hne.1 (congrArg UInt16.toNat h'.1)
    · exact hne.1 (congrArg UInt16.toNat h'.1)
    · exact hne.1 (congrArg UInt16.toNat h'.1)
    · exact hne.2 (congrArg UInt16.toNat h'.1)

/-- **IPv6 classification.**  The groups of a serialized address are read back, and the answer of
    `isPrivateIpv6` is right exactly when the first group is not a short one that reads like a private
    range. -/
theorem isPrivateIpv6_correct_iff {hostname : List Char → Option (List Char)} (h : KeepsSerialized hostname)
    (address : Ipv6Address) :
    ipv6Groups address.serialize = some (address.groups.map UInt16.toNat) ∧
      ((isPrivateIpv6 hostname address.serialize = true ↔ PrivateAddress address) ↔ ¬ ShortFirstGroup address) := by
  refine ⟨ipv6Groups_serialize address, ?_⟩
  rw [isPrivateIpv6_serialize h]
  constructor
  · intro hright hshort
    exact not_private_of_shortFirstGroup hshort (hright.mp (Or.inr hshort))
  · intro hshort
    exact or_iff_left hshort

/-- A URL parser for URLs `http://[text]/` whose address is written in the normal form. -/
def bracketedHost (url : List Char) : Option (List Char) := some ((url.drop 7).dropLast)

theorem keepsSerialized_bracketedHost : KeepsSerialized bracketedHost := by
  intro address
  have hurl : "http://[".toList ++ address.serialize ++ "]/".toList =
      "http://".toList ++ (('[' :: address.serialize ++ [']']) ++ ['/']) := by
    simp
  unfold bracketedHost
  rw [hurl, show 7 = "http://".toList.length by decide, List.drop_left, List.dropLast_concat]

theorem isPrivateIpv6_correct_linkLocal :
    ¬ ShortFirstGroup ⟨0xfe80, 0, 0, 0, 0, 0, 0, 1⟩ ∧
      (isPrivateIpv6 bracketedHost (serialize ⟨0xfe80, 0, 0, 0, 0, 0, 0, 1⟩) = true ↔
        PrivateAddress ⟨0xfe80, 0, 0, 0, 0, 0, 0, 1⟩) := by
  have hlong : ¬ ShortFirstGroup ⟨0xfe80, 0, 0, 0, 0, 0, 0, 1⟩ := by
    unfold ShortFirstGroup
    decide
  exact ⟨hlong, (isPrivateIpv6_correct_iff keepsSerialized_bracketedHost _).2.mpr hlong⟩

/-- `fc::1` is public. -/
theorem isPrivateIpv6_short :
    ¬ ∀ address : Ipv6Address, isPrivateIpv6 bracketedHost address.serialize = true ↔ PrivateAddress address := by
  intro h
  have hshort : ShortFirstGroup ⟨0xfc, 0, 0, 0, 0, 0, 0, 1⟩ := Or.inr (Or.inl (by decide))
  exact not_private_of_shortFirstGroup hshort ((h _).mp (by decide))

end Clemvion.Egress
