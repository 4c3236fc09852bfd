import Amnezia.Java.Text

/-!
# C strings

What the command line tools use of the C library, and `ctype.h`.  A string is the list of its bytes
before the NUL, each byte written as the character of its code, so that ASCII text is its own
encoding.  `char` is converted to `int` without a sign and `unsigned long` has 64 bits.
-/

namespace Amnezia.Libc

open Java (Text)

abbrev Bytes := List Char

def code (c : Char) : BitVec 8 := BitVec.ofNat 8 c.toNat

def isspace (c : Char) : Bool :=
  (code c).toNat == 32 || decide (9 ≤ (code c).toNat ∧ (code c).toNat ≤ 13)

def charIsSpace (c : Char) : Bool :=
  let d := code c - 9
  (0x80001F#32 >>> (d &&& 31).toNat) &&& (1#32 >>> (d >>> 5).toNat) != 0

def charIsDigit (c : Char) : Bool :=
  let c : BitVec 32 := (code c).setWidth 32
  ((47 - c) &&& (c - 58)) >>> 31 != 0

def sameNoCase (s t : Bytes) : Bool := s.map Char.toLower == t.map Char.toLower

def startsNoCase (s key : Bytes) : Bool := sameNoCase (s.take key.length) key

/-- `strsep` with one separator: the string before it, and the one after it if there is any. -/
def strsep (sep : Char) (s : Bytes) : Bytes × Option Bytes :=
  match s.dropWhile (· != sep) with
  | [] => (s, none)
  | _ :: rest => (s.takeWhile (· != sep), some rest)

/-- `strchrnul`: the string from the first `c` on, or from its NUL on. -/
def strchrnul (c : Char) (s : Bytes) : Bytes := s.dropWhile (· != c)

/-- The string in a buffer that can hold a NUL. -/
def cstr (buffer : Bytes) : Bytes := buffer.takeWhile (· != '\x00')

/-- The buffers `getline` fills until it returns `-1`. -/
def getlines : Bytes → List Bytes
  | [] => []
  | '\n' :: cs => ['\n'] :: getlines cs
  | c :: cs =>
    match getlines cs with
    | [] => [[c]]
    | line :: lines => (c :: line) :: lines

def sign : Bytes → Bool × Bytes
  | '-' :: s => (true, s)
  | '+' :: s => (false, s)
  | s => (false, s)

def ulongMax : Nat := 18446744073709551615

def longMax : Int := 9223372036854775807

/-- `strtoul` in base 10, with what `*end` points to, where `ULONG_MAX` is `max`. -/
def strtoulUpTo (max : Nat) (s : Bytes) : Nat × Bytes :=
  let (negative, t) := sign (s.dropWhile isspace)
  let digits := t.takeWhile Char.isDigit
  let n := Nat.ofDigitChars 10 digits 0
  if digits = [] then (0, s)
  else (if max < n then max else if negative then (max + 1 - n) % (max + 1) else n,
    t.dropWhile Char.isDigit)

def strtoul (s : Bytes) : Nat × Bytes := strtoulUpTo ulongMax s

/-- `atoi`: the value of `strtol`, as an `int`. -/
def atoi (s : Bytes) : BitVec 32 :=
  let (negative, t) := sign (s.dropWhile isspace)
  let digits : Int := Nat.ofDigitChars 10 (t.takeWhile Char.isDigit) 0
  let n := if negative then -digits else digits
  BitVec.ofInt 32 (if longMax < n then longMax else if n < -longMax - 1 then -longMax - 1 else n)

def byte (n : Nat) : Char := Char.ofNat n

def utf8Char (c : Char) : Bytes :=
  let n := c.toNat
  if n < 0x80 then [c]
  else if n < 0x800 then [byte (0xc0 + n / 64), byte (0x80 + n % 64)]
  else if n < 0x10000 then
    [byte (0xe0 + n / 4096), byte (0x80 + n / 64 % 64), byte (0x80 + n % 64)]
  else [byte (0xf0 + n / 262144 % 8), byte (0x80 + n / 4096 % 64), byte (0x80 + n / 64 % 64),
    byte (0x80 + n % 64)]

def utf8 (s : Text) : Bytes := s.flatMap utf8Char

/-- `InputStreamReader` with UTF-8.  An ASCII byte is always its own character, also after a
sequence that is cut off, and nothing else becomes an ASCII character.  What stands for a malformed
sequence is left open. -/
structure Utf8Decoder where
  decode : Bytes → Text
  decode_nil : decode [] = []
  decode_ascii : ∀ a c b, c.toNat < 128 → decode (a ++ c :: b) = decode a ++ c :: decode b
  mem_of_mem_decode : ∀ s c, c.toNat < 128 → c ∈ decode s → c ∈ s

theorem ctype_codes : ∀ d : BitVec 8,
    ((0x80001F#32 >>> ((d - 9) &&& 31).toNat) &&& (1#32 >>> ((d - 9) >>> 5).toNat) != 0) =
      (d.toNat == 32 || decide (9 ≤ d.toNat ∧ d.toNat ≤ 13)) ∧
    (((47 - d.setWidth 32) &&& (d.setWidth 32 - 58)) >>> 31 != (0 : BitVec 32)) =
      decide (48 ≤ d.toNat ∧ d.toNat ≤ 57) := by
  decide +kernel

theorem charIsSpace_eq : charIsSpace = isspace := by
  funext c
  exact (ctype_codes (code c)).1

theorem charIsDigit_eq (c : Char) :
    charIsDigit c = decide (48 ≤ (code c).toNat ∧ (code c).toNat ≤ 57) := (ctype_codes (code c)).2

variable {c : Char}

theorem forall_byte {P : Char → Prop} (h : ∀ n : Fin 256, P (Char.ofNat n)) (hc : c.toNat < 256) :
    P c := by
  have hn := h ⟨c.toNat, hc⟩
  rwa [Char.ofNat_toNat] at hn

theorem toNat_code (h : c.toNat < 256) : (code c).toNat = c.toNat := by
  unfold code
  rw [BitVec.toNat_ofNat]
  exact Nat.mod_eq_of_lt h

theorem isspace_iff (h : c.toNat < 256) :
    isspace c = true ↔ c.toNat = 32 ∨ (9 ≤ c.toNat ∧ c.toNat ≤ 13) := by
  unfold isspace
  rw [toNat_code h, Bool.or_eq_true, beq_iff_eq, decide_eq_true_iff]

theorem isspace_of_gt (hlow : 32 < c.toNat) (h : c.toNat < 256) : isspace c = false := by
  apply eq_false_of_ne_true
  rw [isspace_iff h]
  omega

theorem charIsDigit_of_isDigit (h : c.isDigit = true) : charIsDigit c = true := by
  rw [Java.isDigit_iff] at h
  rw [charIsDigit_eq, toNat_code (by omega), decide_eq_true_iff]
  exact h

theorem isspace_of_isDigit (h : c.isDigit = true) : isspace c = false := by
  rw [Java.isDigit_iff] at h
  exact isspace_of_gt (by omega) (by omega)

theorem toLower_eq_equals (h : c.toLower = '=') : c = '=' := by
  unfold Char.toLower at h
  split at h
  · next hupper =>
    have hval := congrArg Char.toNat h
    simp only [ge_iff_le, UInt32.le_iff_toNat_le] at hupper
    simp at hupper hval
    omega
  · exact h

theorem toLower_eq_i (h : c.toLower = 'i') : c = 'i' ∨ c = 'I' := by
  unfold Char.toLower at h
  split at h
  · next hupper =>
    apply Or.inr
    apply Char.ext
    have hval := congrArg Char.toNat h
    simp only [ge_iff_le, UInt32.le_iff_toNat_le] at hupper
    simp at hupper hval
    apply UInt32.toNat_inj.1
    show c.toNat = 73
    omega
  · exact .inl h

variable {s : Bytes}

theorem notMem_map_toLower (h : '=' ∉ s) : '=' ∉ s.map Char.toLower := by
  intro hmem
  obtain ⟨c, hc, heq⟩ := List.mem_map.1 hmem
  rw [toLower_eq_equals heq] at hc
  exact h hc

/-- Whether a line `key=value` starts with `name=` is decided by the key. -/
theorem startsNoCase_key {key name : Bytes} (hkey : '=' ∉ key) (hname : '=' ∉ name) (w : Bytes) :
    startsNoCase (key ++ '=' :: w) (name ++ ['=']) = sameNoCase key name := by
  rw [Bool.eq_iff_iff]
  unfold startsNoCase sameNoCase
  rw [beq_iff_eq, beq_iff_eq]
  constructor
  · intro h
    -- both sides are cut at their first `=`
    have hall : key.map Char.toLower ++ '=' :: w.map Char.toLower = name.map Char.toLower ++
        '=' :: ((key ++ '=' :: w).drop (name ++ ['=']).length).map Char.toLower := by
      have hsplit := congrArg (List.map Char.toLower)
        (List.take_append_drop (name ++ ['=']).length (key ++ '=' :: w))
      rw [List.map_append, h] at hsplit
      simpa using hsplit.symm
    have htake := congrArg (List.takeWhile (· != '=')) hall
    rwa [Fields.takeWhile_append_cons (notMem_map_toLower hkey),
      Fields.takeWhile_append_cons (notMem_map_toLower hname)] at htake
  · intro h
    have hlength : key.length = name.length := by simpa using congrArg List.length h
    have htake : (key ++ '=' :: w).take (name ++ ['=']).length = key ++ ['='] := by
      rw [List.length_append, ← hlength, List.length_singleton, List.take_length_add_append]
      rfl
    rw [htake, List.map_append, List.map_append, h]

variable {t : Bytes}

theorem length_eq_of_sameNoCase (h : sameNoCase s t = true) : s.length = t.length := by
  unfold sameNoCase at h
  rw [beq_iff_eq] at h
  simpa using congrArg List.length h

theorem drop_key {key name : Bytes} (h : sameNoCase key name = true) (w : Bytes) :
    (key ++ '=' :: w).drop (name ++ ['=']).length = w := by
  rw [List.length_append, ← length_eq_of_sameNoCase h, List.length_singleton,
    List.drop_length_add_append]
  rfl

theorem sameNoCase_of_notMem (hs : '=' ∈ s) (ht : '=' ∉ t) : sameNoCase s t = false := by
  apply eq_false_of_ne_true
  intro h
  unfold sameNoCase at h
  rw [beq_iff_eq] at h
  have hmem : '='.toLower ∈ s.map Char.toLower := List.mem_map_of_mem hs
  rw [h] at hmem
  exact notMem_map_toLower ht hmem

theorem notMem_of_sameNoCase (h : sameNoCase s t = true) (ht : '=' ∉ t) : '=' ∉ s := by
  intro hs
  rw [sameNoCase_of_notMem hs ht] at h
  cases h

theorem sameNoCase_trans {u : Bytes} (h₁ : sameNoCase s t = true) (h₂ : sameNoCase s u = true) :
    sameNoCase t u = true := by
  unfold sameNoCase at *
  rw [beq_iff_eq] at *
  exact h₁.symm.trans h₂

variable {line : Bytes}

theorem getlines_append (h : '\n' ∉ line) (rest : Bytes) :
    getlines (line ++ '\n' :: rest) = (line ++ ['\n']) :: getlines rest := by
  induction line with
  | nil => rfl
  | cons c cs ih =>
    rw [List.mem_cons, not_or] at h
    rw [List.cons_append, getlines.eq_3, ih h.2]
    · rfl
    · exact fun hc => h.1 hc.symm

theorem getlines_flatMap {lines : List Bytes} (h : ∀ l ∈ lines, '\n' ∉ l) :
    getlines (lines.flatMap (· ++ ['\n'])) = lines.map (· ++ ['\n']) := by
  induction lines with
  | nil => rfl
  | cons l ls ih =>
    rw [List.flatMap_cons, List.append_assoc, List.singleton_append,
      getlines_append (h l (by simp)), ih (fun m hm => h m (by simp [hm]))]
    rfl

-- A line that `getline` gives has no newline but the one at its end.
structure AreLines (ls : List Bytes) : Prop where
  ne_nil : ∀ l ∈ ls, l ≠ []
  inner : ∀ l ∈ ls, '\n' ∉ l.dropLast
  ended : ls.Pairwise fun l _ => l.getLast? = some '\n'

theorem areLines_getlines (s : Bytes) : AreLines (getlines s) := by
  induction s with
  | nil => exact ⟨by simp [getlines], by simp [getlines], .nil⟩
  | cons c cs ih =>
    by_cases hc : c = '\n'
    · subst hc
      rw [getlines]
      exact ⟨List.forall_mem_cons.2 ⟨List.cons_ne_nil _ _, ih.ne_nil⟩,
        List.forall_mem_cons.2 ⟨List.not_mem_nil, ih.inner⟩,
        List.pairwise_cons.2 ⟨fun _ _ => rfl, ih.ended⟩⟩
    · rw [getlines.eq_3 _ _ hc]
      cases hlines : getlines cs with
      | nil => exact ⟨by simp, by simp, List.pairwise_singleton _ _⟩
      | cons l ls =>
        rw [hlines] at ih
        obtain ⟨hne, hnes⟩ := List.forall_mem_cons.1 ih.ne_nil
        obtain ⟨hinner, hinners⟩ := List.forall_mem_cons.1 ih.inner
        obtain ⟨b, l, rfl⟩ := List.exists_cons_of_ne_nil hne
        refine ⟨List.forall_mem_cons.2 ⟨List.cons_ne_nil _ _, hnes⟩,
          List.forall_mem_cons.2 ⟨?_, hinners⟩, List.pairwise_cons.2 (List.pairwise_cons.1 ih.ended)⟩
        rw [List.dropLast_cons_cons, List.mem_cons, not_or]
        exact ⟨fun h => hc h.symm, hinner⟩

theorem notMem_dropLast_of_prefix (hline : '\n' ∉ line.dropLast) (ht : t <+: line) :
    '\n' ∉ t.dropLast := by
  intro hmem
  obtain ⟨r, rfl⟩ := ht
  cases r with
  | nil =>
    rw [List.append_nil] at hline
    exact hline hmem
  | cons c r =>
    rw [List.dropLast_append_of_ne_nil (List.cons_ne_nil c r), List.mem_append, not_or] at hline
    exact hline.1 ((List.dropLast_sublist t).mem hmem)

theorem notMem_of_prefix (hline : '\n' ∉ line.dropLast) (ht : t <+: line)
    (hlast : ∀ c ∈ t.getLast?, c ≠ '\n') : '\n' ∉ t := by
  obtain rfl | hne := eq_or_ne t []
  · exact List.not_mem_nil
  · intro hmem
    rw [← List.dropLast_append_getLast hne, List.mem_append, List.mem_singleton] at hmem
    obtain hmem | hmem := hmem
    · exact notMem_dropLast_of_prefix hline ht hmem
    · exact hlast _ (List.getLast?_eq_getLast_of_ne_nil hne) hmem.symm

theorem getlines_of_notMem (hne : s ≠ []) (h : '\n' ∉ s) : getlines s = [s] := by
  induction s with
  | nil => exact absurd rfl hne
  | cons c cs ih =>
    rw [List.mem_cons, not_or] at h
    rw [getlines.eq_3 _ _ fun hc => h.1 hc.symm]
    cases cs with
    | nil => rfl
    | cons d cs => rw [ih (List.cons_ne_nil d cs) h.2]

theorem notMem_cstr (s : Bytes) : '\x00' ∉ cstr s := by
  intro h
  have hne := List.mem_takeWhile_imp h
  exact absurd hne (by decide)

theorem cstr_of_notMem (h : '\x00' ∉ s) : cstr s = s := by
  unfold cstr
  rw [List.takeWhile_eq_self_iff]
  intro c hc
  rw [bne_iff_ne]
  rintro rfl
  exact h hc

theorem getlines_cstr {lines : List Bytes} (h : ∀ l ∈ lines, '\n' ∉ l ∧ '\x00' ∉ l) :
    (getlines (lines.flatMap (· ++ ['\n']))).map cstr = lines.map (· ++ ['\n']) := by
  rw [getlines_flatMap fun l hl => (h l hl).1, List.map_map]
  apply List.map_congr_left
  intro l hl
  apply cstr_of_notMem
  rw [List.mem_append, not_or]
  exact ⟨(h l hl).2, by decide⟩

theorem strsep_append {sep : Char} (h : sep ∉ s) (t : Bytes) :
    strsep sep (s ++ sep :: t) = (s, some t) := by
  unfold strsep
  rw [Fields.dropWhile_append_cons h, Fields.takeWhile_append_cons h]

theorem strsep_of_notMem {sep : Char} (h : sep ∉ s) : strsep sep s = (s, none) := by
  have hdrop : s.dropWhile (· != sep) = [] :=
    List.dropWhile_eq_nil_iff.2 (Fields.bne_of_notMem h)
  unfold strsep
  rw [hdrop]

-- A digit is neither a blank nor a sign.
theorem sign_of_isDigit (hc : c.isDigit = true) (cs : Bytes) :
    sign ((c :: cs).dropWhile isspace) = (false, c :: cs) := by
  rw [List.dropWhile_cons_of_neg (by rw [isspace_of_isDigit hc]; decide), sign.eq_3]
  · intro t ht
    rw [List.cons.injEq] at ht
    rw [ht.1] at hc
    exact absurd hc (by decide)
  · intro t ht
    rw [List.cons.injEq] at ht
    rw [ht.1] at hc
    exact absurd hc (by decide)

theorem strtoul_of_isDigit (hc : c.isDigit = true) (cs : Bytes) :
    strtoul (c :: cs) =
      (min ulongMax (Nat.ofDigitChars 10 ((c :: cs).takeWhile Char.isDigit) 0),
        (c :: cs).dropWhile Char.isDigit) := by
  have hne : (c :: cs).takeWhile Char.isDigit ≠ [] := by
    rw [List.takeWhile_cons_of_pos hc]
    exact List.cons_ne_nil _ _
  unfold strtoul strtoulUpTo
  rw [sign_of_isDigit hc]
  simp only [Bool.false_eq_true, if_false]
  rw [if_neg hne]
  congr 1
  split <;> omega

theorem sign_valueOf (n : Nat) :
    sign ((Java.valueOf n).dropWhile isspace) = (false, Java.valueOf n) := by
  obtain ⟨c, cs, hcs⟩ := List.exists_cons_of_ne_nil (Java.valueOf_ne_nil n)
  rw [hcs]
  exact sign_of_isDigit (@Java.isDigit_of_mem_valueOf n c (by simp [hcs])) cs

theorem takeWhile_valueOf (n : Nat) : (Java.valueOf n).takeWhile Char.isDigit = Java.valueOf n :=
  List.takeWhile_eq_self_iff.2 fun _ hc => Java.isDigit_of_mem_valueOf hc

theorem ofDigitChars_valueOf (n : Nat) : Nat.ofDigitChars 10 (Java.valueOf n) 0 = n := by
  rw [Java.valueOf_natCast, Nat.ofDigitChars_ten_toDigits]

variable {n : Nat}

theorem strtoul_valueOf (h : n < 18446744073709551616) : strtoul (Java.valueOf n) = (n, []) := by
  have hdrop : (Java.valueOf n).dropWhile Char.isDigit = [] :=
    List.dropWhile_eq_nil_iff.2 fun _ hc => Java.isDigit_of_mem_valueOf hc
  have hvalue := ofDigitChars_valueOf n
  have htake := takeWhile_valueOf n
  obtain ⟨c, cs, hcs⟩ := List.exists_cons_of_ne_nil (Java.valueOf_ne_nil n)
  have hc : c.isDigit = true := @Java.isDigit_of_mem_valueOf n c (by simp [hcs])
  rw [hcs] at hdrop hvalue htake ⊢
  rw [strtoul_of_isDigit hc, htake, hvalue, hdrop, Nat.min_eq_right (by unfold ulongMax; omega)]

theorem atoi_valueOf (h : n < 2147483648) : (atoi (Java.valueOf n)).toNat = n := by
  unfold atoi longMax
  rw [sign_valueOf]
  simp only [takeWhile_valueOf, ofDigitChars_valueOf, Bool.false_eq_true, if_false]
  rw [if_neg (by omega), if_neg (by omega), BitVec.ofInt_natCast, BitVec.toNat_ofNat]
  exact Nat.mod_eq_of_lt (by omega)

theorem toNat_byte (h : n < 256) : (byte n).toNat = n := by
  unfold byte Char.ofNat
  rw [dif_pos (Or.inl (by omega))]
  rfl

@[simp] theorem utf8_nil : utf8 [] = [] := rfl

@[simp] theorem utf8_append (s t : Text) : utf8 (s ++ t) = utf8 s ++ utf8 t :=
  List.flatMap_append

theorem utf8_cons (c : Char) (s : Text) : utf8 (c :: s) = utf8Char c ++ utf8 s := rfl

theorem utf8Char_of_lt (h : c.toNat < 128) : utf8Char c = [c] := if_pos h

theorem utf8_of_ascii {s : Text} (h : ∀ c ∈ s, c.toNat < 128) : utf8 s = s := by
  induction s with
  | nil => rfl
  | cons c s ih =>
    rw [utf8_cons, utf8Char_of_lt (h c (by simp)), ih (fun d hd => h d (by simp [hd]))]
    rfl

variable {b : Char}

theorem mem_utf8Char (h : b ∈ utf8Char c) :
    (b = c ∧ c.toNat < 128) ∨ (128 ≤ c.toNat ∧ 128 ≤ b.toNat ∧ b.toNat < 256) := by
  by_cases hascii : c.toNat < 128
  · rw [utf8Char_of_lt hascii, List.mem_singleton] at h
    exact .inl ⟨h, hascii⟩
  · refine .inr ⟨by omega, ?_⟩
    have hbyte : ∃ n, 128 ≤ n ∧ n < 256 ∧ b = byte n := by
      unfold utf8Char at h
      simp only at h
      rw [if_neg hascii] at h
      split at h
      · simp only [List.mem_cons, List.not_mem_nil, or_false] at h
        rcases h with h | h <;> exact ⟨_, by omega, by omega, h⟩
      · split at h
        · simp only [List.mem_cons, List.not_mem_nil, or_false] at h
          rcases h with h | h | h <;> exact ⟨_, by omega, by omega, h⟩
        · simp only [List.mem_cons, List.not_mem_nil, or_false] at h
          rcases h with h | h | h | h <;> exact ⟨_, by omega, by omega, h⟩
    obtain ⟨n, hlow, hhigh, rfl⟩ := hbyte
    rw [toNat_byte hhigh]
    exact ⟨hlow, hhigh⟩

theorem utf8Char_ne_nil (c : Char) : utf8Char c ≠ [] := by
  unfold utf8Char
  simp only
  split
  · simp
  · split
    · simp
    · split <;> simp

theorem mem_utf8 {s : Text} (h : b ∈ utf8 s) :
    (b ∈ s ∧ b.toNat < 128) ∨ (128 ≤ b.toNat ∧ b.toNat < 256) := by
  obtain ⟨c, hc, hb⟩ := List.mem_flatMap.1 h
  rcases mem_utf8Char hb with ⟨rfl, hlt⟩ | hbyte
  · exact .inl ⟨hc, hlt⟩
  · exact .inr hbyte.2

theorem mem_utf8_iff (hb : b.toNat < 128) {s : Text} : b ∈ utf8 s ↔ b ∈ s := by
  constructor
  · intro h
    rcases mem_utf8 h with h | h
    · exact h.1
    · omega
  · intro h
    refine List.mem_flatMap.2 ⟨b, h, ?_⟩
    rw [utf8Char_of_lt hb]
    simp

theorem utf8_eq_nil {s : Text} : utf8 s = [] ↔ s = [] := by
  cases s with
  | nil => simp
  | cons c s => simp [utf8_cons, utf8Char_ne_nil]

theorem isspace_eq_space (h : c.toNat < 256) : isspace c = Java.space c := by
  have hall : ∀ n : Fin 256, isspace (Char.ofNat n) = Java.space (Char.ofNat n) := by decide +kernel
  exact forall_byte (P := fun c => isspace c = Java.space c) hall h

theorem toNat_lt_of_space (h : Java.space c = true) : c.toNat < 128 := by
  have htrim := Java.trimmable_iff.1 (Java.trimmable_of_space h)
  omega

theorem filter_utf8Char (c : Char) : (utf8Char c).filter (!isspace ·) =
    utf8 ([c].filter (!Java.space ·)) := by
  by_cases hascii : c.toNat < 128
  · rw [utf8Char_of_lt hascii, List.filter_singleton, List.filter_singleton,
      isspace_eq_space (by omega)]
    cases Java.space c with
    | true => rfl
    | false => exact (utf8_of_ascii (by simpa using hascii)).symm
  · have hspace : Java.space c = false := by
      apply eq_false_of_ne_true
      intro h
      exact hascii (toNat_lt_of_space h)
    have hself : (utf8Char c).filter (!isspace ·) = utf8Char c := by
      rw [List.filter_eq_self]
      intro b hb
      rcases mem_utf8Char hb with ⟨rfl, hlt⟩ | hbyte
      · omega
      · rw [isspace_of_gt (by omega) hbyte.2.2]
        rfl
    rw [hself, List.filter_singleton, hspace]
    exact (List.append_nil _).symm

theorem filter_utf8 (s : Text) : (utf8 s).filter (!isspace ·) = utf8 (s.filter (!Java.space ·)) := by
  induction s with
  | nil => rfl
  | cons c s ih =>
    rw [utf8_cons, List.filter_append, ih, filter_utf8Char, ← utf8_append, ← List.filter_append]
    rfl

theorem filter_utf8_eq_self_iff {s : Text} :
    (utf8 s).filter (!isspace ·) = utf8 s ↔ ∀ c ∈ s, Java.space c = false := by
  rw [List.filter_eq_self]
  constructor
  · intro h c hc
    apply eq_false_of_ne_true
    intro hspace
    have hlt := toNat_lt_of_space hspace
    have hkept := h c ((mem_utf8_iff hlt).2 hc)
    rw [isspace_eq_space (by omega), hspace] at hkept
    exact absurd hkept (by decide)
  · intro h b hb
    rcases mem_utf8 hb with ⟨hmem, hlt⟩ | hbyte
    · rw [isspace_eq_space (by omega), h b hmem]
      rfl
    · rw [isspace_of_gt (by omega) hbyte.2]
      rfl

theorem bare_utf8 {s : Text} (h : Fields.Bare Java.trimmable s) : Fields.Bare isspace (utf8 s) := by
  have hchar : ∀ {b c : Char}, Java.trimmable c = false → b ∈ utf8Char c → isspace b = false := by
    intro b c hc hb
    have hgt : ¬ c.toNat ≤ 32 := by
      rw [← Java.trimmable_iff, hc]
      decide
    rcases mem_utf8Char hb with ⟨rfl, hlt⟩ | hbyte
    · exact isspace_of_gt (by omega) (by omega)
    · exact isspace_of_gt (by omega) hbyte.2.2
  constructor
  · intro b hb
    cases s with
    | nil => simp at hb
    | cons c s =>
      rw [utf8_cons, List.head?_append_of_ne_nil _ (utf8Char_ne_nil c)] at hb
      exact hchar (h.head c rfl) (List.mem_of_mem_head? hb)
  · intro b hb
    rcases List.eq_nil_or_concat s with rfl | ⟨init, c, rfl⟩
    · simp at hb
    · rw [List.concat_eq_append] at h hb
      have hlast : utf8 [c] = utf8Char c := List.append_nil _
      rw [utf8_append, hlast, List.getLast?_append_of_ne_nil _ (utf8Char_ne_nil c)] at hb
      exact hchar (h.last c (by simp)) (List.mem_of_mem_getLast? hb)

theorem Utf8Decoder.decode_of_ascii (dec : Utf8Decoder) (h : ∀ c ∈ s, c.toNat < 128) :
    dec.decode s = s := by
  induction s with
  | nil => exact dec.decode_nil
  | cons c s ih =>
    rw [List.forall_mem_cons] at h
    have hcons := dec.decode_ascii [] c s h.1
    rw [List.nil_append, dec.decode_nil, List.nil_append, ih h.2] at hcons
    exact hcons

theorem Utf8Decoder.decode_intercalate (dec : Utf8Decoder) {sep : Char} (hsep : sep.toNat < 128)
    (cols : List Bytes) :
    dec.decode ([sep].intercalate cols) = [sep].intercalate (cols.map dec.decode) := by
  induction cols with
  | nil => exact dec.decode_nil
  | cons col cols ih =>
    cases cols with
    | nil => simp
    | cons next cols =>
      rw [List.intercalate_cons_cons, List.append_assoc, List.singleton_append,
        dec.decode_ascii _ _ _ hsep, ih]
      simp only [List.map_cons, List.intercalate_cons_cons, List.append_assoc, List.singleton_append]

theorem Utf8Decoder.decode_lines (dec : Utf8Decoder) (lines : List Bytes) :
    dec.decode (lines.flatMap (· ++ ['\n'])) = (lines.map dec.decode).flatMap (· ++ ['\n']) := by
  induction lines with
  | nil => exact dec.decode_nil
  | cons line lines ih =>
    rw [List.flatMap_cons, List.append_assoc, List.singleton_append,
      dec.decode_ascii _ _ _ (by decide), ih, List.map_cons, List.flatMap_cons, List.append_assoc,
      List.singleton_append]

def replacingDecoder : Utf8Decoder where
  decode s := s.map fun c => if c.toNat < 128 then c else '\ufffd'
  decode_nil := rfl
  decode_ascii a c b hc := by
    rw [List.map_append, List.map_cons, if_pos hc]
  mem_of_mem_decode s c hc hmem := by
    obtain ⟨b, hb, heq⟩ := List.mem_map.1 hmem
    split at heq
    · exact heq ▸ hb
    · rw [← heq] at hc
      exact absurd hc (by decide)

end Amnezia.Libc
