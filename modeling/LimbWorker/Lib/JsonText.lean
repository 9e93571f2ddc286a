import Mathlib.Algebra.Order.Ring.Nat
import Mathlib.Data.List.Forall2
import Mathlib.Data.Nat.Digits.Lemmas
import Mathlib.Tactic.Common

/-!
# JSON text

The texts of JSON documents with no white space between their tokens. A string stands between quotes, its UTF-8
bytes as they are or escaped; the numbers are natural numbers in decimal. The documents can be of any type:
`Values` says how they are made of strings, numbers, lists and members.

`IsValue` is the grammar, by the depth of the nesting. `parse` reads such texts, and `parse_eq_some` says that it
reads every text of the grammar as the document it is a text of. `quoted` and `decimal` write the tokens.
-/

namespace LimbWorker.Lib.JsonText

/-- A text in bytes. -/
abbrev Text := List UInt8

def quote : UInt8 := 0x22
def comma : UInt8 := 0x2C
def zero : UInt8 := 0x30
def colon : UInt8 := 0x3A
def lbracket : UInt8 := 0x5B
def backslash : UInt8 := 0x5C
def rbracket : UInt8 := 0x5D
def letterU : UInt8 := 0x75
def lbrace : UInt8 := 0x7B
def rbrace : UInt8 := 0x7D

/-! ## The grammar -/

/-- The bytes of a string. -/
def utf8 (s : String) : List UInt8 := s.toByteArray.data.toList

/-- The letters that may follow a backslash, with the bytes they stand for. -/
def shortEscapes : List (UInt8 × UInt8) :=
  [(0x22, 0x22), (0x5C, 0x5C), (0x62, 0x08), (0x66, 0x0C), (0x6E, 0x0A), (0x72, 0x0D), (0x74, 0x09)]

/-- The value of a hexadecimal digit. -/
def hexDigit (c : UInt8) : Option UInt8 :=
  if 0x30 ≤ c ∧ c ≤ 0x39 then some (c - 0x30)
  else if 0x61 ≤ c ∧ c ≤ 0x66 then some (c - 0x57)
  else if 0x41 ≤ c ∧ c ≤ 0x46 then some (c - 0x37)
  else none

/-- A text between quotes, and the bytes it stands for. -/
inductive Escapes : Text → List UInt8 → Prop where
  | nil : Escapes [] []
  | plain {b : UInt8} {text bytes} : 0x20 ≤ b → b ≠ quote → b ≠ backslash → Escapes text bytes →
      Escapes (b :: text) (b :: bytes)
  | short {c b : UInt8} {text bytes} : shortEscapes.lookup c = some b → Escapes text bytes →
      Escapes (backslash :: c :: text) (b :: bytes)
  | unicode {hi lo h l : UInt8} {text bytes} : hexDigit hi = some h → hexDigit lo = some l → h < 8 →
      Escapes text bytes →
      Escapes (backslash :: letterU :: zero :: zero :: hi :: lo :: text) ((16 * h + l) :: bytes)

/-- A string token. -/
def IsLiteral (text : Text) (s : String) : Prop :=
  ∃ body, text = quote :: (body ++ [quote]) ∧ Escapes body (utf8 s)

def isDigit (b : UInt8) : Bool := 0x30 ≤ b && b ≤ 0x39

/-- The number that digits are. -/
def digitsValue (text : Text) : Nat := text.foldl (fun n b => 10 * n + (b - zero).toNat) 0

/-- A number token. -/
structure IsDecimal (text : Text) (n : Nat) : Prop where
  ne_nil : text ≠ []
  digits : ∀ b ∈ text, isDigit b = true
  no_leading_zero : text.head? = some zero → text = [zero]
  value : digitsValue text = n

/-- How documents are made, with a limit to the numbers. -/
structure Values (J : Type) where
  string : String → J
  number : Nat → J
  array : List J → J
  object : List (String × J) → J
  limit : Nat

/-- Texts in a row with commas between them, enclosed. -/
def enclosed (left : UInt8) (texts : List Text) (right : UInt8) : Text :=
  left :: ([comma].intercalate texts ++ [right])

section Grammar

variable {J : Type}

/-- A name, a colon and a value. -/
def IsMember (P : Text → J → Prop) (text : Text) (member : String × J) : Prop :=
  ∃ name value, text = name ++ colon :: value ∧ IsLiteral name member.1 ∧ P value member.2

/-- A value whose parts are texts of `P`. -/
inductive IsValueOver (A : Values J) (P : Text → J → Prop) : Text → J → Prop where
  | string {text s} : IsLiteral text s → IsValueOver A P text (A.string s)
  | number {text n} : IsDecimal text n → n < A.limit → IsValueOver A P text (A.number n)
  | array {texts values} : List.Forall₂ P texts values →
      IsValueOver A P (enclosed lbracket texts rbracket) (A.array values)
  | object {texts members} : List.Forall₂ (IsMember P) texts members →
      IsValueOver A P (enclosed lbrace texts rbrace) (A.object members)

/-- The texts of documents of a depth. -/
def IsValue (A : Values J) : Nat → Text → J → Prop
  | 0 => fun _ _ => False
  | depth + 1 => IsValueOver A (IsValue A depth)

end Grammar

/-! ## Reading -/

/-- A function that reads something off the front of a text. -/
abbrev Reader (α : Type) := Text → Option (α × Text)

/-- The bytes up to the closing quote. -/
def readString : Reader (List UInt8)
  | [] => none
  | b :: text =>
      if b = quote then some ([], text)
      else if b = backslash then
        match text with
        | c :: text =>
            if c = letterU then
              match text with
              | z :: z' :: hi :: lo :: text =>
                  match hexDigit hi, hexDigit lo with
                  | some h, some l =>
                      if z = zero ∧ z' = zero ∧ h < 8 then
                        (readString text).map fun r => ((16 * h + l) :: r.1, r.2)
                      else none
                  | _, _ => none
              | _ => none
            else
              match shortEscapes.lookup c with
              | some b => (readString text).map fun r => (b :: r.1, r.2)
              | none => none
        | [] => none
      else if b < 0x20 then none
      else (readString text).map fun r => (b :: r.1, r.2)

/-- A string token. -/
def readLiteral : Reader String
  | [] => none
  | b :: text =>
      if b = quote then
        (readString text).bind fun r => (String.fromUTF8? ⟨r.1.toArray⟩).map fun s => (s, r.2)
      else none

/-- A number token. -/
def readDecimal (limit : Nat) : Reader Nat := fun text =>
  let digits := text.takeWhile isDigit
  if digits = [] ∨ digits.head? = some zero ∧ digits ≠ [zero] ∨ limit ≤ digitsValue digits then none
  else some (digitsValue digits, text.dropWhile isDigit)

section Readers

variable {α J : Type}

/-- Things with commas between them, at least one, and what closes them. -/
def readList (read : Reader α) (right : UInt8) : Nat → Reader (List α)
  | 0, _ => none
  | fuel + 1, text =>
      match read text with
      | none => none
      | some (_, []) => none
      | some (x, b :: text) =>
          if b = comma then (readList read right fuel text).map fun r => (x :: r.1, r.2)
          else if b = right then some ([x], text)
          else none

/-- Things with commas between them, after the opening bracket. -/
def readEnclosed (read : Reader α) (right : UInt8) : Reader (List α)
  | [] => none
  | b :: text => if b = right then some ([], text) else readList read right (text.length + 1) (b :: text)

/-- A name, a colon and a value. -/
def readMember (read : Reader J) : Reader (String × J) := fun text =>
  match readLiteral text with
  | none => none
  | some (_, []) => none
  | some (key, b :: text) => if b = colon then (read text).map fun r => ((key, r.1), r.2) else none

/-- A document of a depth. -/
def readValue (A : Values J) : Nat → Reader J
  | 0, _ => none
  | _ + 1, [] => none
  | depth + 1, b :: text =>
      if b = quote then (readLiteral (b :: text)).map fun r => (A.string r.1, r.2)
      else if b = lbracket then
        (readEnclosed (readValue A depth) rbracket text).map fun r => (A.array r.1, r.2)
      else if b = lbrace then
        (readEnclosed (readMember (readValue A depth)) rbrace text).map fun r => (A.object r.1, r.2)
      else (readDecimal A.limit (b :: text)).map fun r => (A.number r.1, r.2)

/-- A whole text. -/
def parse (A : Values J) (depth : Nat) (text : Text) : Option J :=
  match readValue A depth text with
  | some (value, []) => some value
  | _ => none

end Readers

/-! ## Every text of the grammar is read -/

/-- A text that does not go on with a digit. -/
def Stops (rest : Text) : Prop := ∀ b ∈ rest.head?, isDigit b = false

theorem stops_nil : Stops [] := by
  intro b hb
  cases hb

theorem stops_cons {b : UInt8} (rest : Text) (h : isDigit b = false) : Stops (b :: rest) := by
  intro b' hb'
  cases hb'
  exact h

/-- The reader takes the texts of `P` off the front, each for what it is a text of. -/
def Reads {α : Type} (read : Reader α) (P : Text → α → Prop) : Prop :=
  ∀ ⦃text x⦄, P text x → ∀ rest, Stops rest → read (text ++ rest) = some (x, rest)

theorem lookup_letterU : shortEscapes.lookup letterU = none := by decide

/-- The bytes between quotes are read. -/
theorem readString_append {text : Text} {bytes : List UInt8} (h : Escapes text bytes) (rest : Text) :
    readString (text ++ quote :: rest) = some (bytes, rest) := by
  have hquote : backslash ≠ quote := by decide
  induction h with
  | nil =>
      rw [List.nil_append, readString.eq_def]
      exact if_pos rfl
  | @plain b text bytes hb hbquote hbackslash _ ih =>
      rw [List.cons_append, readString.eq_def]
      dsimp only
      rw [if_neg hbquote, if_neg hbackslash, if_neg (UInt8.not_lt.mpr hb), ih]
      rfl
  | @short c b text bytes hc _ ih =>
      -- the letter `u` starts an escape of the other kind
      have hcu : c ≠ letterU := by
        rintro rfl
        rw [lookup_letterU] at hc
        cases hc
      rw [List.cons_append, List.cons_append, readString.eq_def]
      dsimp only
      rw [if_neg hquote, if_pos rfl, if_neg hcu, hc]
      dsimp only
      rw [ih]
      rfl
  | @unicode hi lo h l text bytes hhi hlo hh _ ih =>
      simp only [List.cons_append]
      rw [readString.eq_def]
      dsimp only
      rw [if_neg hquote, if_pos rfl, if_pos rfl, hhi, hlo]
      dsimp only
      rw [if_pos ⟨rfl, rfl, hh⟩, ih]
      rfl

/-- The bytes of a string are a string again. -/
theorem fromUTF8_utf8 (s : String) : String.fromUTF8? ⟨(utf8 s).toArray⟩ = some s := by
  have hbytes : (⟨(utf8 s).toArray⟩ : ByteArray) = s.toByteArray := rfl
  rw [hbytes, String.fromUTF8?, dif_pos s.isValidUTF8]
  rfl

theorem reads_readLiteral : Reads readLiteral IsLiteral := by
  rintro text s ⟨body, rfl, hbody⟩ rest -
  have hread : readString (body ++ [quote] ++ rest) = some (utf8 s, rest) := by
    rw [List.append_assoc]
    exact readString_append hbody rest
  rw [List.cons_append, readLiteral, if_pos rfl, hread]
  show (String.fromUTF8? _).map _ = _
  rw [fromUTF8_utf8]
  rfl

/-- The digits at the front of a text are those that were put there. -/
theorem takeWhile_append {text rest : Text} (h : ∀ b ∈ text, isDigit b = true) (hrest : Stops rest) :
    (text ++ rest).takeWhile isDigit = text ∧ (text ++ rest).dropWhile isDigit = rest := by
  have hstop : rest.takeWhile isDigit = [] ∧ rest.dropWhile isDigit = rest := by
    cases rest with
    | nil => exact ⟨rfl, rfl⟩
    | cons b rest =>
        have hb : isDigit b = false := hrest b rfl
        simp [hb]
  constructor
  · rw [List.takeWhile_append_of_pos h, hstop.1, List.append_nil]
  · rw [List.dropWhile_append_of_pos h, hstop.2]

theorem reads_readDecimal (limit : Nat) :
    Reads (readDecimal limit) fun text n => IsDecimal text n ∧ n < limit := by
  rintro text n ⟨h, hlt⟩ rest hrest
  obtain ⟨htake, hdrop⟩ := takeWhile_append h.digits hrest
  have haccept : ¬ (text = [] ∨ text.head? = some zero ∧ text ≠ [zero] ∨ limit ≤ digitsValue text) := by
    rintro (hnil | ⟨hhead, hne⟩ | hle)
    · exact h.ne_nil hnil
    · exact hne (h.no_leading_zero hhead)
    · rw [h.value] at hle
      exact absurd hlt (Nat.not_lt.mpr hle)
  unfold readDecimal
  rw [htake, hdrop]
  dsimp only
  rw [if_neg haccept, h.value]

section Readers

variable {α J : Type} {read : Reader α} {P : Text → α → Prop} {right : UInt8}

/-- Things with commas between them are read, with fuel for each of them. -/
theorem readList_append (hread : Reads read P) (hcomma : right ≠ comma) (hright : isDigit right = false)
    {texts : List Text} {xs : List α} (h : List.Forall₂ P texts xs) (hne : texts ≠ []) (rest : Text)
    {fuel : Nat} (hfuel : texts.length ≤ fuel) :
    readList read right fuel ([comma].intercalate texts ++ right :: rest) = some (xs, rest) := by
  induction h generalizing fuel with
  | nil => exact absurd rfl hne
  | @cons text x texts xs hx hxs ih =>
      obtain ⟨fuel, rfl⟩ : ∃ k, fuel = k + 1 := ⟨fuel - 1, by rw [List.length_cons] at hfuel; omega⟩
      rw [List.length_cons] at hfuel
      cases hxs with
      | nil =>
          have hfirst := hread hx (right :: rest) (stops_cons rest hright)
          simp [readList, hfirst, hcomma]
      | @cons text' x' texts xs hx' hxs =>
          have hmore := ih (List.cons_ne_nil text' texts) (Nat.le_of_succ_le_succ hfuel)
          have hfirst := hread hx (comma :: ([comma].intercalate (text' :: texts) ++ right :: rest))
            (stops_cons _ (by decide))
          rw [List.intercalate_cons_cons, List.append_assoc, List.append_assoc, List.singleton_append,
            readList, hfirst]
          dsimp only
          rw [if_pos rfl, hmore]
          rfl

/-- There are no more things than bytes, as each but the last has its comma. -/
theorem length_le_length_intercalate (texts : List Text) :
    texts.length ≤ ([comma].intercalate texts).length + 1 := by
  induction texts with
  | nil => exact Nat.zero_le _
  | cons text texts ih =>
      cases texts with
      | nil => simp
      | cons text' texts =>
          rw [List.intercalate_cons_cons, List.length_append, List.length_append, List.length_singleton]
          rw [List.length_cons]
          omega

/-- Enclosed things are read, if none of them starts with what closes them. -/
theorem readEnclosed_append (hread : Reads read P) (hcomma : right ≠ comma)
    (hright : isDigit right = false)
    (hstart : ∀ ⦃text x⦄, P text x → ∃ b tail, text = b :: tail ∧ b ≠ right)
    {texts : List Text} {xs : List α} (h : List.Forall₂ P texts xs) (rest : Text) :
    readEnclosed read right ([comma].intercalate texts ++ right :: rest) = some (xs, rest) := by
  cases h with
  | nil => simp [readEnclosed]
  | @cons text x texts xs hx hxs =>
      obtain ⟨b, tail, hbody, hb⟩ : ∃ b tail,
          [comma].intercalate (text :: texts) ++ right :: rest = b :: tail ∧ b ≠ right := by
        obtain ⟨b, tail, rfl, hb⟩ := hstart hx
        exact ⟨b, _, by rw [List.intercalate_cons_cons_left, List.cons_append], hb⟩
      have hfuel : (text :: texts).length ≤ tail.length + 1 := by
        have hle := length_le_length_intercalate (text :: texts)
        have hlength := congrArg List.length hbody
        rw [List.length_append, List.length_cons, List.length_cons] at hlength
        omega
      have hlist := readList_append hread hcomma hright (.cons hx hxs) (List.cons_ne_nil text texts) rest hfuel
      rw [hbody] at hlist ⊢
      rw [readEnclosed, if_neg hb, hlist]

variable {A : Values J} {Q : Text → J → Prop} {readQ : Reader J}

theorem reads_readMember (hread : Reads readQ Q) : Reads (readMember readQ) (IsMember Q) := by
  rintro text ⟨key, x⟩ ⟨name, value, rfl, hname, hvalue⟩ rest hrest
  have hkey := reads_readLiteral hname (colon :: (value ++ rest)) (stops_cons _ (by decide))
  rw [List.append_assoc, List.cons_append, readMember, hkey]
  dsimp only
  rw [if_pos rfl, hread hvalue rest hrest]
  rfl

theorem isLiteral_start {text : Text} {s : String} (h : IsLiteral text s) :
    ∃ tail, text = quote :: tail := by
  obtain ⟨body, rfl, -⟩ := h
  exact ⟨_, rfl⟩

theorem isDecimal_start {text : Text} {n : Nat} (h : IsDecimal text n) :
    ∃ b tail, text = b :: tail ∧ isDigit b = true := by
  obtain ⟨b, tail, rfl⟩ := List.exists_cons_of_ne_nil h.ne_nil
  exact ⟨b, tail, rfl, h.digits b (List.mem_cons_self ..)⟩

theorem ne_of_isDigit {b c : UInt8} (hb : isDigit b = true) (hc : isDigit c = false) : b ≠ c := by
  rintro rfl
  rw [hb] at hc
  cases hc

/-- No value starts with a closing bracket. -/
theorem isValueOver_start {text : Text} {value : J} (h : IsValueOver A Q text value) :
    ∃ b tail, text = b :: tail ∧ b ≠ rbracket := by
  cases h with
  | string hs =>
      obtain ⟨tail, rfl⟩ := isLiteral_start hs
      exact ⟨quote, tail, rfl, by decide⟩
  | number hn _ =>
      obtain ⟨b, tail, rfl, hb⟩ := isDecimal_start hn
      exact ⟨b, tail, rfl, ne_of_isDigit hb (by decide)⟩
  | array _ => exact ⟨lbracket, _, rfl, by decide⟩
  | object _ => exact ⟨lbrace, _, rfl, by decide⟩

theorem isMember_start {text : Text} {member : String × J} (h : IsMember Q text member) :
    ∃ b tail, text = b :: tail ∧ b ≠ rbrace := by
  obtain ⟨name, value, rfl, hname, -⟩ := h
  obtain ⟨tail, rfl⟩ := isLiteral_start hname
  exact ⟨quote, _, rfl, by decide⟩

variable (A)

/-- **Documents are read**, by induction on their depth. -/
theorem reads_readValue (depth : Nat) : Reads (readValue A depth) (IsValue A depth) := by
  induction depth with
  | zero =>
      intro text value h
      cases h
  | succ depth ih =>
      intro text value h rest hrest
      cases h with
      | string hs =>
          -- the first byte decides which of the four it is
          have hread := reads_readLiteral hs rest hrest
          obtain ⟨tail, rfl⟩ := isLiteral_start hs
          rw [List.cons_append] at hread ⊢
          rw [readValue, if_pos rfl, hread]
          rfl
      | number hn hlt =>
          have hread := reads_readDecimal A.limit ⟨hn, hlt⟩ rest hrest
          obtain ⟨b, tail, rfl, hb⟩ := isDecimal_start hn
          rw [List.cons_append] at hread ⊢
          rw [readValue, if_neg (ne_of_isDigit hb (by decide)), if_neg (ne_of_isDigit hb (by decide)),
            if_neg (ne_of_isDigit hb (by decide)), hread]
          rfl
      | @array texts values hvalues =>
          -- an element does not start with the closing bracket
          have hstart : ∀ ⦃text value⦄, IsValue A depth text value →
              ∃ b tail, text = b :: tail ∧ b ≠ rbracket := by
            intro text value hvalue
            cases depth with
            | zero => cases hvalue
            | succ depth => exact isValueOver_start hvalue
          have hread := readEnclosed_append ih (by decide) (by decide) hstart hvalues rest
          rw [enclosed, List.cons_append, List.append_assoc, List.singleton_append, readValue,
            if_neg (by decide), if_pos rfl, hread]
          rfl
      | @object texts members hmembers =>
          have hread := readEnclosed_append (reads_readMember ih) (by decide) (by decide)
            (fun _ _ => isMember_start) hmembers rest
          rw [enclosed, List.cons_append, List.append_assoc, List.singleton_append, readValue,
            if_neg (by decide), if_neg (by decide), if_pos rfl, hread]
          rfl

/-- **A text of the grammar is read as its document.** -/
theorem parse_eq_some {depth : Nat} {text : Text} {value : J} (h : IsValue A depth text value) :
    parse A depth text = some value := by
  have hread := reads_readValue A depth h [] stops_nil
  rw [List.append_nil] at hread
  rw [parse, hread]

end Readers

/-! ## Writing tokens -/

/-- The hexadecimal digit of a value. -/
def hexText (d : UInt8) : UInt8 := if d < 10 then 0x30 + d else 0x57 + d

/-- A byte between quotes. -/
def escapeByte (b : UInt8) : Text :=
  if b < 0x20 then [backslash, letterU, zero, zero, hexText (b / 16), hexText (b % 16)]
  else if b = quote ∨ b = backslash then [backslash, b]
  else [b]

/-- A string token. -/
def quoted (s : String) : Text := quote :: ((utf8 s).flatMap escapeByte ++ [quote])

/-- A number token. -/
def decimal (n : Nat) : Text :=
  if n = 0 then [zero] else (Nat.digits 10 n).reverse.map fun d => zero + UInt8.ofNat d

theorem hexDigit_hexText : ∀ n : Fin 32,
    hexDigit (hexText (UInt8.ofNat n / 16)) = some (UInt8.ofNat n / 16) ∧
    hexDigit (hexText (UInt8.ofNat n % 16)) = some (UInt8.ofNat n % 16) ∧ UInt8.ofNat n / 16 < 8 ∧
    16 * (UInt8.ofNat n / 16) + UInt8.ofNat n % 16 = UInt8.ofNat n := by decide

/-- One byte more. -/
theorem escapes_escapeByte {text : Text} {bytes : List UInt8} (b : UInt8) (h : Escapes text bytes) :
    Escapes (escapeByte b ++ text) (b :: bytes) := by
  unfold escapeByte
  by_cases hcontrol : b < 0x20
  · rw [if_pos hcontrol]
    obtain ⟨hhi, hlo, hlt, hb⟩ := hexDigit_hexText ⟨b.toNat, hcontrol⟩
    rw [UInt8.ofNat_toNat] at hhi hlo hlt hb
    have hescapes := Escapes.unicode hhi hlo hlt h
    rwa [hb] at hescapes
  · rw [if_neg hcontrol]
    by_cases hspecial : b = quote ∨ b = backslash
    · rw [if_pos hspecial]
      rcases hspecial with rfl | rfl
      · exact .short (by decide) h
      · exact .short (by decide) h
    · rw [if_neg hspecial]
      rw [not_or] at hspecial
      exact .plain (UInt8.not_lt.mp hcontrol) hspecial.1 hspecial.2 h

theorem isLiteral_quoted (s : String) : IsLiteral (quoted s) s := by
  refine ⟨(utf8 s).flatMap escapeByte, rfl, ?_⟩
  induction utf8 s with
  | nil => exact .nil
  | cons b bytes ih =>
      rw [List.flatMap_cons]
      exact escapes_escapeByte b ih

theorem digit_facts : ∀ d : Fin 10, isDigit (zero + UInt8.ofNat d) = true ∧
    (zero + UInt8.ofNat d - zero).toNat = d ∧ (zero + UInt8.ofNat d = zero → d = 0) := by decide

/-- Digits, the least significant first, are read from their other end. -/
theorem digitsValue_reverse {digits : List Nat} (h : ∀ d ∈ digits, d < 10) :
    digitsValue (digits.reverse.map fun d => zero + UInt8.ofNat d) = Nat.ofDigits 10 digits := by
  unfold digitsValue
  induction digits with
  | nil => rfl
  | cons d digits ih =>
      have hd : (zero + UInt8.ofNat d - zero).toNat = d := (digit_facts ⟨d, h d (List.mem_cons_self ..)⟩).2.1
      rw [List.reverse_cons, List.map_append, List.foldl_append,
        ih fun d hmem => h d (List.mem_cons_of_mem _ hmem), Nat.ofDigits_cons, List.map_singleton,
        List.foldl_cons, List.foldl_nil, hd, Nat.add_comm]

theorem isDecimal_decimal (n : Nat) : IsDecimal (decimal n) n := by
  have hten : ∀ d ∈ Nat.digits 10 n, d < 10 := fun d hd => Nat.digits_lt_base (by decide) hd
  by_cases hn : n = 0
  · subst hn
    refine ⟨List.cons_ne_nil _ _, ?_, fun _ => rfl, rfl⟩
    intro b hb
    rw [List.mem_singleton.mp hb]
    rfl
  · unfold decimal
    rw [if_neg hn]
    have hne : Nat.digits 10 n ≠ [] := Nat.digits_ne_nil_iff_ne_zero.mpr hn
    refine ⟨?_, ?_, ?_, ?_⟩
    · simpa using hne
    · intro b hb
      obtain ⟨d, hd, rfl⟩ := List.mem_map.mp hb
      exact (digit_facts ⟨d, hten d (List.mem_reverse.mp hd)⟩).1
    · -- the first digit is the most significant one
      intro hhead
      rw [List.head?_map, List.head?_reverse, List.getLast?_eq_getLast_of_ne_nil hne] at hhead
      have hlast := hten _ (List.getLast_mem hne)
      have hzero := (digit_facts ⟨_, hlast⟩).2.2 (Option.some.inj hhead)
      exact absurd (congrArg Fin.val hzero) (Nat.getLast_digit_ne_zero 10 hn)
    · rw [digitsValue_reverse hten, Nat.ofDigits_digits]

end LimbWorker.Lib.JsonText
