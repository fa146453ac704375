import Decisya.Text.Python

/-!
# Percent decoding

Every `%` with two hexadecimal digits after it is a byte, and a run of bytes is a text in some
character set. What the character set makes of a byte outside ASCII is left open.
-/

namespace Percent

open Python

set_option autoImplicit false

structure Charset where
  text : List ℕ → Str
  text_ne_nil : ∀ bytes, bytes ≠ [] → text bytes ≠ []
  ascii_mem : ∀ bytes, ∀ c ∈ text bytes, c.toNat < 128 → c.toNat ∈ bytes

def replacement : Char := Char.ofNat 0xfffd

/-- Whatever is not ASCII becomes the replacement character. -/
def Charset.ascii : Charset where
  text bytes := bytes.map fun b => if b < 128 then Char.ofNat b else replacement
  text_ne_nil := by
    intro bytes hne hnil
    exact hne (List.map_eq_nil_iff.mp hnil)
  ascii_mem := by
    intro bytes c hc hlt
    obtain ⟨b, hb, rfl⟩ := List.mem_map.mp hc
    split at hlt
    · rename_i hascii
      have hvalid : b.isValidChar := Or.inl (by omega)
      rw [if_pos hascii, Char.toNat_ofNat, if_pos hvalid]
      exact hb
    · exact absurd hlt (by decide)

instance : Inhabited Charset := ⟨Charset.ascii⟩

def hexValue (c : Char) : Option ℕ :=
  if '0' ≤ c ∧ c ≤ '9' then some (c.toNat - 48)
  else if 'a' ≤ c ∧ c ≤ 'f' then some (c.toNat - 87)
  else if 'A' ≤ c ∧ c ≤ 'F' then some (c.toNat - 55)
  else none

/-- The byte that a `%` before these two characters stands for. -/
def byteOf (high low : Char) : Option ℕ := do
  let h ← hexValue high
  let l ← hexValue low
  pure (16 * h + l)

variable (charset : Charset)

/-- The text of the bytes read so far. -/
def flush (bytes : List ℕ) : Str := if bytes = [] then [] else charset.text bytes

def decodeFrom : List ℕ → Str → Str
  | bytes, '%' :: high :: low :: rest =>
    match byteOf high low with
    | some b => decodeFrom (bytes ++ [b]) rest
    | none => flush charset bytes ++ '%' :: decodeFrom [] (high :: low :: rest)
  | bytes, c :: rest => flush charset bytes ++ c :: decodeFrom [] rest
  | bytes, [] => flush charset bytes

def decode (s : Str) : Str := decodeFrom charset [] s

variable {charset}

theorem flush_nil : flush charset [] = [] := if_pos rfl

theorem decodeFrom_cons {c : Char} (hc : c ≠ '%') (bytes : List ℕ) (rest : Str) :
    decodeFrom charset bytes (c :: rest) = flush charset bytes ++ c :: decodeFrom charset [] rest := by
  apply decodeFrom.eq_2
  intro high low tail heq
  exact absurd heq hc

theorem decode_cons {c : Char} (hc : c ≠ '%') (rest : Str) :
    decode charset (c :: rest) = c :: decode charset rest := by
  unfold decode
  rw [decodeFrom_cons hc, flush_nil]
  rfl

/-- What holds no `%` stays as it is. -/
theorem decode_append {s : Str} (hs : '%' ∉ s) (rest : Str) :
    decode charset (s ++ rest) = s ++ decode charset rest := by
  induction s with
  | nil => rfl
  | cons c s ih =>
    have hc : c ≠ '%' := by
      intro heq
      apply hs
      rw [heq]
      exact List.mem_cons_self
    have htail : '%' ∉ s := fun hmem => hs (List.mem_cons_of_mem c hmem)
    rw [List.cons_append, decode_cons hc, ih htail]
    rfl

/-! ## Dots -/

/-- No two dots in a row. -/
def DotsApart (s : Str) : Prop := s.IsChain fun a b => ¬ (a = '.' ∧ b = '.')

theorem dotsApart_iff {s : Str} : DotsApart s ↔ ¬ ['.', '.'] <:+: s := by
  constructor
  · intro h hpart
    have hpair := h.infix hpart
    rw [List.isChain_pair] at hpair
    exact hpair ⟨rfl, rfl⟩
  · intro h
    induction s with
    | nil => exact List.IsChain.nil
    | cons c s ih =>
      have htail : ¬ ['.', '.'] <:+: s := fun hpart => h (List.infix_cons hpart)
      unfold DotsApart
      rw [List.isChain_cons]
      refine ⟨?_, ih htail⟩
      rintro d hd ⟨rfl, rfl⟩
      obtain ⟨rest, rfl⟩ := List.head?_eq_some_iff.mp hd
      exact h ⟨[], rest, rfl⟩

/-- No encoded dot. -/
def NoDotByte (s : Str) : Prop :=
  ∀ before high low after, s = before ++ '%' :: high :: low :: after → byteOf high low ≠ some 46

theorem NoDotByte.tail {c : Char} {s : Str} (h : NoDotByte (c :: s)) : NoDotByte s := by
  intro before high low after heq
  exact h (c :: before) high low after (by rw [heq]; rfl)

theorem dot_not_mem_flush {bytes : List ℕ} (h : 46 ∉ bytes) : '.' ∉ flush charset bytes := by
  unfold flush
  split
  · exact List.not_mem_nil
  · intro hmem
    exact h (charset.ascii_mem bytes '.' hmem (by decide))

theorem dotsApart_of_not_mem {s : Str} (h : '.' ∉ s) : DotsApart s := by
  rw [dotsApart_iff]
  intro hpart
  exact h (hpart.subset List.mem_cons_self)

/-- Text put after a flush brings its first character only. -/
theorem dotsApart_flush_append {bytes : List ℕ} {s : Str} (hbytes : 46 ∉ bytes) (hs : DotsApart s) :
    DotsApart (flush charset bytes ++ s) := by
  have hnot : '.' ∉ flush charset bytes := dot_not_mem_flush hbytes
  refine List.isChain_append.mpr ⟨dotsApart_of_not_mem hnot, hs, ?_⟩
  rintro a ha b - ⟨rfl, -⟩
  exact hnot (List.mem_of_getLast? ha)

theorem head?_flush_append {bytes : List ℕ} {s : Str} (hbytes : 46 ∉ bytes)
    (h : (flush charset bytes ++ s).head? = some '.') : bytes = [] ∧ s.head? = some '.' := by
  by_cases hnil : bytes = []
  · subst hnil
    rw [flush_nil] at h
    exact ⟨rfl, h⟩
  · have hne : flush charset bytes ≠ [] := by
      unfold flush
      rw [if_neg hnil]
      exact charset.text_ne_nil bytes hnil
    rw [List.head?_append_of_ne_nil _ hne] at h
    exact absurd (List.mem_of_head? h) (dot_not_mem_flush hbytes)

theorem dotsApart_cons {c : Char} {s : Str} (hs : DotsApart s)
    (h : c = '.' → s.head? ≠ some '.') : DotsApart (c :: s) := by
  refine List.isChain_cons.mpr ⟨?_, hs⟩
  rintro d hd ⟨hc, rfl⟩
  exact h hc hd

/-- Decoding brings no two dots together: a run of bytes leaves something between. -/
theorem dotsApart_decodeFrom {bytes : List ℕ} {s : Str} (hbytes : 46 ∉ bytes) (hs : DotsApart s)
    (hnone : NoDotByte s) : DotsApart (decodeFrom charset bytes s) ∧
      ((decodeFrom charset bytes s).head? = some '.' → bytes = [] ∧ s.head? = some '.') := by
  induction bytes, s using decodeFrom.induct with
  | case1 bytes high low rest b hb ih =>
    have hb46 : b ≠ 46 := by
      rintro rfl
      exact hnone [] high low rest rfl hb
    have hbytes' : 46 ∉ bytes ++ [b] := by
      rw [List.mem_append, List.mem_singleton]
      rintro (hmem | heq)
      · exact hbytes hmem
      · exact hb46 heq.symm
    obtain ⟨hapart, hhead⟩ := ih hbytes' hs.tail.tail.tail hnone.tail.tail.tail
    rw [decodeFrom, hb]
    refine ⟨hapart, fun h => ?_⟩
    exact absurd (hhead h).1 (List.append_ne_nil_of_right_ne_nil bytes (List.cons_ne_nil b []))
  | case2 bytes high low rest hb ih =>
    obtain ⟨hapart, -⟩ := ih List.not_mem_nil hs.tail hnone.tail
    rw [decodeFrom, hb]
    constructor
    · apply dotsApart_flush_append hbytes
      exact dotsApart_cons hapart fun h => absurd h (by decide)
    · intro h
      have hpercent := (head?_flush_append hbytes h).2
      exact absurd hpercent (by simp)
  | case3 bytes c rest hc ih =>
    obtain ⟨hapart, hhead⟩ := ih List.not_mem_nil hs.tail hnone.tail
    rw [decodeFrom.eq_2 charset bytes c rest hc]
    constructor
    · apply dotsApart_flush_append hbytes
      apply dotsApart_cons hapart
      intro hdot hnext
      have hrest := (hhead hnext).2
      exact (List.isChain_cons.mp hs).1 '.' hrest ⟨hdot, rfl⟩
    · intro h
      obtain ⟨hnil, hdot⟩ := head?_flush_append hbytes h
      exact ⟨hnil, hdot⟩
  | case4 bytes =>
    have hflush : decodeFrom charset bytes [] = flush charset bytes ++ [] := by
      rw [List.append_nil]
      rfl
    rw [hflush]
    refine ⟨dotsApart_flush_append hbytes List.IsChain.nil, fun h => ?_⟩
    exact absurd (head?_flush_append hbytes h).2 (by simp)

theorem dotsApart_decode {s : Str} (hs : DotsApart s) (hnone : NoDotByte s) :
    DotsApart (decode charset s) :=
  (dotsApart_decodeFrom List.not_mem_nil hs hnone).1

end Percent
