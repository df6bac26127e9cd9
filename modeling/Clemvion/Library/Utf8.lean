import Mathlib.Data.List.DropRight

/-!
# Utf8 — encoding and lossy decoding

Bytes are numbers below 256.  The decoder reads one byte at a time and writes U+FFFD for every
longest sequence that begins a character without ending one.  Text that is cut at any byte decodes
to the characters that are whole, and at most one U+FFFD behind them.
-/

namespace Clemvion.Library

/-! ## 1. The encoding -/

def utf8Char (c : Char) : List Nat :=
  let n := c.toNat
  if n < 0x80 then [n]
  else if n < 0x800 then [0xC0 + n / 64, 0x80 + n % 64]
  else if n < 0x10000 then [0xE0 + n / 4096, 0x80 + n / 64 % 64, 0x80 + n % 64]
  else [0xF0 + n / 262144, 0x80 + n / 4096 % 64, 0x80 + n / 64 % 64, 0x80 + n % 64]

def utf8 (cs : List Char) : List Nat := cs.flatMap utf8Char

/-! ## 2. The decoder -/

def replacementChar : Char := Char.ofNat 0xFFFD

/-- A character that has begun: its bits so far, the bytes to come and the range of the next one. -/
structure Pending where
  codePoint : Nat
  remaining : Nat
  lower : Nat := 0x80
  upper : Nat := 0xBF

/-- A byte between characters: what it writes and what it begins. -/
def startByte (b : Nat) : List Char × Option Pending :=
  if b < 0x80 then ([Char.ofNat b], none)
  else if 0xC2 ≤ b ∧ b ≤ 0xDF then ([], some { codePoint := b - 0xC0, remaining := 1 })
  else if b = 0xE0 then ([], some { codePoint := 0, remaining := 2, lower := 0xA0 })
  else if b = 0xED then ([], some { codePoint := 13, remaining := 2, upper := 0x9F })
  else if 0xE1 ≤ b ∧ b ≤ 0xEF then ([], some { codePoint := b - 0xE0, remaining := 2 })
  else if b = 0xF0 then ([], some { codePoint := 0, remaining := 3, lower := 0x90 })
  else if b = 0xF4 then ([], some { codePoint := 4, remaining := 3, upper := 0x8F })
  else if 0xF1 ≤ b ∧ b ≤ 0xF3 then ([], some { codePoint := b - 0xF0, remaining := 3 })
  else ([replacementChar], none)

def decodeUtf8 : Option Pending → List Nat → List Char
  | none, [] => []
  | some _, [] => [replacementChar]
  | none, b :: rest => (startByte b).1 ++ decodeUtf8 (startByte b).2 rest
  | some p, b :: rest =>
    if p.lower ≤ b ∧ b ≤ p.upper then
      if p.remaining = 1 then Char.ofNat (p.codePoint * 64 + (b - 0x80)) :: decodeUtf8 none rest
      else decodeUtf8 (some { codePoint := p.codePoint * 64 + (b - 0x80), remaining := p.remaining - 1 }) rest
    else replacementChar :: (startByte b).1 ++ decodeUtf8 (startByte b).2 rest

/-! ## 3. One character -/

def Pending.next (p : Pending) (b : Nat) : Pending :=
  { codePoint := p.codePoint * 64 + (b - 0x80), remaining := p.remaining - 1 }

/-- The bytes end the pending character as `c`. -/
def Completes : Pending → List Nat → Char → Prop
  | _, [], _ => False
  | p, [b], c =>
    (p.lower ≤ b ∧ b ≤ p.upper) ∧ p.remaining = 1 ∧ Char.ofNat (p.codePoint * 64 + (b - 0x80)) = c
  | p, b :: b' :: rest, c => (p.lower ≤ b ∧ b ≤ p.upper) ∧ p.remaining ≠ 1 ∧ Completes (p.next b) (b' :: rest) c

theorem Completes.decode {p : Pending} {bytes : List Nat} {c : Char} (h : Completes p bytes c) (rest : List Nat) :
    decodeUtf8 (some p) (bytes ++ rest) = c :: decodeUtf8 none rest := by
  induction bytes generalizing p with
  | nil => exact h.elim
  | cons b more ih =>
    cases more with
    | nil =>
      obtain ⟨hrange, hlast, hc⟩ := h
      rw [List.singleton_append, decodeUtf8, if_pos hrange, if_pos hlast, hc]
    | cons b' more =>
      obtain ⟨hrange, hmore, hnext⟩ := h
      rw [List.cons_append, decodeUtf8, if_pos hrange, if_neg hmore]
      exact ih hnext

/-- A character that is cut is one U+FFFD. -/
theorem Completes.decode_take {p : Pending} {bytes : List Nat} {c : Char} (h : Completes p bytes c) {k : Nat}
    (hk : k < bytes.length) : decodeUtf8 (some p) (bytes.take k) = [replacementChar] := by
  induction bytes generalizing p k with
  | nil => exact h.elim
  | cons b more ih =>
    cases k with
    | zero => rfl
    | succ k =>
      cases more with
      | nil => simp at hk
      | cons b' more =>
        obtain ⟨hrange, hmore, hnext⟩ := h
        rw [List.take_succ_cons, decodeUtf8, if_pos hrange, if_neg hmore]
        exact ih hnext (Nat.lt_of_succ_lt_succ hk)

theorem ofNat_eq {c : Char} {n : Nat} (h : n = c.toNat) : Char.ofNat n = c := by
  rw [h, Char.ofNat_toNat]

/-- A byte behind the second one. -/
theorem tail_range (n : Nat) : 0x80 ≤ 0x80 + n % 64 ∧ 0x80 + n % 64 ≤ 0xBF := by omega

/-- A character is one byte, or a first byte and the bytes that complete it. -/
theorem utf8Char_spec (c : Char) :
    (utf8Char c = [c.toNat] ∧ startByte c.toNat = ([c], none)) ∨
      ∃ lead more p, utf8Char c = lead :: more ∧ startByte lead = ([], some p) ∧ Completes p more c := by
  have hvalid : c.toNat < 0xd800 ∨ 0xdfff < c.toNat ∧ c.toNat < 0x110000 := c.valid
  unfold utf8Char
  by_cases h1 : c.toNat < 0x80
  · refine Or.inl ⟨if_pos h1, ?_⟩
    unfold startByte
    rw [if_pos h1, Char.ofNat_toNat]
  by_cases h2 : c.toNat < 0x800
  · refine Or.inr ⟨0xC0 + c.toNat / 64, [0x80 + c.toNat % 64], { codePoint := c.toNat / 64, remaining := 1 },
      by simp only [if_neg h1, if_pos h2], ?_, tail_range _, rfl, ofNat_eq ?_⟩
    · unfold startByte
      rw [if_neg (by omega), if_pos (by omega), Nat.add_sub_cancel_left]
    · show c.toNat / 64 * 64 + (0x80 + c.toNat % 64 - 0x80) = c.toNat
      omega
  by_cases h3 : c.toNat < 0x10000
  · -- the second byte has a smaller range behind E0, and behind ED, where surrogates would stand
    have hlead : ∃ lower upper, startByte (0xE0 + c.toNat / 4096) =
        ([], some { codePoint := c.toNat / 4096, remaining := 2, lower := lower, upper := upper }) ∧
        lower ≤ 0x80 + c.toNat / 64 % 64 ∧ 0x80 + c.toNat / 64 % 64 ≤ upper := by
      unfold startByte
      rw [if_neg (by omega), if_neg (by omega)]
      by_cases h0 : c.toNat / 4096 = 0
      · rw [if_pos (by omega), h0]
        exact ⟨0xA0, 0xBF, rfl, by omega, by omega⟩
      by_cases hd : c.toNat / 4096 = 13
      · rw [if_neg (by omega), if_pos (by omega), hd]
        exact ⟨0x80, 0x9F, rfl, by omega, by omega⟩
      · rw [if_neg (by omega), if_neg (by omega), if_pos (by omega), Nat.add_sub_cancel_left]
        exact ⟨0x80, 0xBF, rfl, by omega, by omega⟩
    obtain ⟨lower, upper, hstart, hlower, hupper⟩ := hlead
    refine Or.inr ⟨_, [0x80 + c.toNat / 64 % 64, 0x80 + c.toNat % 64], _,
      by simp only [if_neg h1, if_neg h2, if_pos h3], hstart, ⟨hlower, hupper⟩,
      (by decide : 2 ≠ 1), tail_range _, rfl, ofNat_eq ?_⟩
    show (c.toNat / 4096 * 64 + (0x80 + c.toNat / 64 % 64 - 0x80)) * 64 + (0x80 + c.toNat % 64 - 0x80) = c.toNat
    omega
  · have hlead : ∃ lower upper, startByte (0xF0 + c.toNat / 262144) =
        ([], some { codePoint := c.toNat / 262144, remaining := 3, lower := lower, upper := upper }) ∧
        lower ≤ 0x80 + c.toNat / 4096 % 64 ∧ 0x80 + c.toNat / 4096 % 64 ≤ upper := by
      unfold startByte
      rw [if_neg (by omega), if_neg (by omega), if_neg (by omega), if_neg (by omega), if_neg (by omega)]
      by_cases h0 : c.toNat / 262144 = 0
      · rw [if_pos (by omega), h0]
        exact ⟨0x90, 0xBF, rfl, by omega, by omega⟩
      by_cases h4 : c.toNat / 262144 = 4
      · rw [if_neg (by omega), if_pos (by omega), h4]
        exact ⟨0x80, 0x8F, rfl, by omega, by omega⟩
      · rw [if_neg (by omega), if_neg (by omega), if_pos (by omega), Nat.add_sub_cancel_left]
        exact ⟨0x80, 0xBF, rfl, by omega, by omega⟩
    obtain ⟨lower, upper, hstart, hlower, hupper⟩ := hlead
    refine Or.inr ⟨_, [0x80 + c.toNat / 4096 % 64, 0x80 + c.toNat / 64 % 64, 0x80 + c.toNat % 64], _,
      by simp only [if_neg h1, if_neg h2, if_neg h3], hstart, ⟨hlower, hupper⟩,
      (by decide : 3 ≠ 1), tail_range _, (by decide : 3 - 1 ≠ 1), tail_range _, rfl, ofNat_eq ?_⟩
    show ((c.toNat / 262144 * 64 + (0x80 + c.toNat / 4096 % 64 - 0x80)) * 64 +
      (0x80 + c.toNat / 64 % 64 - 0x80)) * 64 + (0x80 + c.toNat % 64 - 0x80) = c.toNat
    omega

/-! ## 4. A text cut at a byte -/

@[simp] theorem utf8_nil : utf8 [] = [] := rfl

@[simp] theorem utf8_append (s t : List Char) : utf8 (s ++ t) = utf8 s ++ utf8 t := List.flatMap_append

theorem utf8_cons (c : Char) (s : List Char) : utf8 (c :: s) = utf8Char c ++ utf8 s := List.flatMap_cons

theorem decodeUtf8_char (c : Char) (rest : List Nat) :
    decodeUtf8 none (utf8Char c ++ rest) = c :: decodeUtf8 none rest := by
  rcases utf8Char_spec c with ⟨h, hstart⟩ | ⟨lead, more, p, h, hstart, hmore⟩
  · rw [h, List.singleton_append, decodeUtf8, hstart]
    rfl
  · rw [h, List.cons_append, decodeUtf8, hstart]
    exact hmore.decode rest

/-- A part of a character is decoded to one U+FFFD, nothing to nothing. -/
theorem decodeUtf8_take_char (c : Char) {k : Nat} (hk : k < (utf8Char c).length) :
    decodeUtf8 none ((utf8Char c).take k) = if k = 0 then [] else [replacementChar] := by
  cases k with
  | zero => rfl
  | succ k =>
    rcases utf8Char_spec c with ⟨h, -⟩ | ⟨lead, more, p, h, hstart, hmore⟩
    · rw [h] at hk
      simp at hk
    · rw [h] at hk ⊢
      rw [List.take_succ_cons, decodeUtf8, hstart, if_neg (Nat.succ_ne_zero k)]
      exact hmore.decode_take (Nat.lt_of_succ_lt_succ hk)

/-- A text longer than `limit` bytes: the characters that fit, the first one that does not, and
    what the cut bytes decode to. -/
theorem exists_cut {s : List Char} {limit : Nat} (h : limit < (utf8 s).length) :
    ∃ kept next rest, s = kept ++ next :: rest ∧ (utf8 kept).length ≤ limit ∧
      limit < (utf8 (kept ++ [next])).length ∧
      ∃ tail, decodeUtf8 none ((utf8 s).take limit) = kept ++ tail ∧ ∀ c ∈ tail, c = replacementChar := by
  induction s generalizing limit with
  | nil => simp at h
  | cons c s ih =>
    rw [utf8_cons] at h ⊢
    by_cases hfits : (utf8Char c).length ≤ limit
    · obtain ⟨kept, next, rest, hs, hkept, hnext, tail, hdecode, htail⟩ :=
        ih (show limit - (utf8Char c).length < (utf8 s).length by
          rw [List.length_append] at h
          omega)
      refine ⟨c :: kept, next, rest, by rw [hs]; rfl, ?_, ?_, tail, ?_, htail⟩
      · rw [utf8_cons, List.length_append]
        omega
      · rw [List.cons_append, utf8_cons, List.length_append]
        omega
      · rw [List.take_append, List.take_of_length_le hfits, decodeUtf8_char, hdecode]
        rfl
    · refine ⟨[], c, s, rfl, Nat.zero_le _, ?_, decodeUtf8 none ((utf8Char c).take limit), ?_, ?_⟩
      · rw [List.nil_append, utf8_cons, utf8_nil, List.append_nil]
        omega
      · rw [List.take_append_of_le_length (by omega), List.nil_append]
      · intro x hx
        rw [decodeUtf8_take_char c (by omega)] at hx
        by_cases hzero : limit = 0
        · rw [if_pos hzero] at hx
          cases hx
        · rw [if_neg hzero] at hx
          exact List.mem_singleton.mp hx

end Clemvion.Library
