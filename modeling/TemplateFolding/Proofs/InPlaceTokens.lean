import TemplateFolding.Proofs.ByteSlices
import TemplateFolding.Proofs.RelaidText
import TemplateFolding.Template.Cursor

/-!
# Reading in place agrees with taking characters off the front

A reader that takes characters off the front of a text never sees a byte. The cursor sees nothing
else: it judges the bytes of a character one by one. The two agree because a test that the grammar
makes treats all characters outside ASCII alike, and the bytes of such a character are none of
ASCII. So the cursor only ever stops between characters, every slice it takes can be taken, and
what it reads is what the reader reads.
-/

namespace TemplateFolding

open Text Parameter

/-! ## The bytes of characters -/

namespace Text

variable {b c : Char} {u : Text} {p : Char → Bool}

/-- The bytes of a character, each as the character with its number. -/
def bytesOf (c : Char) : Text :=
  (String.utf8EncodeChar c).map fun byte => Char.ofNat byte.toNat

/-- A character of ASCII is its only byte. -/
lemma bytesOf_of_ascii (h : c.toNat < 128) : bytesOf c = [c] := by
  have hle : c.val.toNat ≤ 127 := Nat.le_of_lt_succ h
  rw [bytesOf, String.utf8EncodeChar, if_pos hle, List.map_singleton, UInt8.toNat_ofNat',
    Nat.mod_eq_of_lt (by omega)]
  exact congrArg (fun x => [x]) (Char.ofNat_toNat c)

lemma toNat_ofNat_byte (byte : UInt8) : (Char.ofNat byte.toNat).toNat = byte.toNat := by
  have hvalid : byte.toNat.isValidChar := Or.inl (Nat.lt_trans byte.toNat_lt (by decide))
  rw [Char.ofNat, dif_pos hvalid]
  rfl

/-- No byte of a character outside ASCII is in ASCII. -/
lemma le_of_mem_bytesOf (h : 128 ≤ c.toNat) (hb : b ∈ bytesOf c) : 128 ≤ b.toNat := by
  obtain ⟨byte, hbyte, rfl⟩ := List.mem_map.1 hb
  rw [toNat_ofNat_byte]
  rw [String.utf8EncodeChar, if_neg (by show ¬c.toNat ≤ 127; omega)] at hbyte
  split_ifs at hbyte
  · simp only [List.mem_cons, List.not_mem_nil, or_false] at hbyte
    rcases hbyte with rfl | rfl <;> rw [UInt8.toNat_ofNat'] <;> omega
  · simp only [List.mem_cons, List.not_mem_nil, or_false] at hbyte
    rcases hbyte with rfl | rfl | rfl <;> rw [UInt8.toNat_ofNat'] <;> omega
  · simp only [List.mem_cons, List.not_mem_nil, or_false] at hbyte
    rcases hbyte with rfl | rfl | rfl | rfl <;> rw [UInt8.toNat_ofNat'] <;> omega

lemma bytesOf_ne_nil (c : Char) : bytesOf c ≠ [] := by
  rw [bytesOf, ne_eq, List.map_eq_nil_iff]
  exact String.utf8EncodeChar_ne_nil

/-- The bytes of a text, each as the character with its number. -/
def bytes (t : Text) : Text :=
  t.flatMap bytesOf

lemma bytes_cons (c : Char) (u : Text) : bytes (c :: u) = bytesOf c ++ u.bytes :=
  List.flatMap_cons

/-- A text has as many bytes as its size says. -/
lemma length_bytes (u : Text) : u.bytes.length = u.byteLength := by
  induction u with
  | nil => rfl
  | cons c u ih =>
    rw [bytes_cons, List.length_append, ih, byteLength_cons, bytesOf, List.length_map,
      String.length_utf8EncodeChar]

/-- Behind the bytes of a text stand those of what follows it. -/
lemma bytesFrom_append (before u : Text) : (before ++ u).bytesFrom before.byteLength = u.bytes := by
  rw [bytesFrom, utf8_append, ← length_utf8, List.drop_left, utf8, List.map_flatMap]
  rfl

/-- A test that makes no difference between characters outside ASCII. -/
def Flat (p : Char → Bool) : Prop :=
  ∀ c d : Char, 128 ≤ c.toNat → 128 ≤ d.toNat → p c = p d

/-- A flat test says the same of a character and of its bytes. -/
lemma Flat.of_mem (hp : Flat p) (hb : b ∈ bytesOf c) : p b = p c := by
  by_cases hc : c.toNat < 128
  · rw [bytesOf_of_ascii hc, List.mem_singleton] at hb
    rw [hb]
  · exact hp b c (le_of_mem_bytesOf (Nat.le_of_not_lt hc) hb) (Nat.le_of_not_lt hc)

/-- A flat test splits the bytes of a text where it splits the text. -/
lemma Flat.takeWhile_bytes (hp : Flat p) (u : Text) :
    u.bytes.takeWhile p = bytes (u.takeWhile p) ∧ u.bytes.dropWhile p = bytes (u.dropWhile p) := by
  induction u with
  | nil => exact ⟨rfl, rfl⟩
  | cons c u ih =>
    rw [bytes_cons, List.takeWhile_cons, List.dropWhile_cons]
    by_cases hc : p c
    · have hall : ∀ b ∈ bytesOf c, p b = true := fun b hb => (hp.of_mem hb).trans hc
      rw [List.takeWhile_append_of_pos hall, List.dropWhile_append_of_pos hall, if_pos hc,
        if_pos hc, bytes_cons]
      exact ⟨congrArg (bytesOf c ++ ·) ih.1, ih.2⟩
    · obtain ⟨b, bs, hbytes⟩ := List.exists_cons_of_ne_nil (bytesOf_ne_nil c)
      have hb : ¬p b := by
        rw [hp.of_mem (c := c) (by simp [hbytes])]
        exact hc
      rw [if_neg hc, if_neg hc, hbytes, List.cons_append, List.takeWhile_cons_of_neg hb,
        List.dropWhile_cons_of_neg hb, bytes_cons, hbytes]
      exact ⟨rfl, rfl⟩

/-- A flat test says the same of the first byte and of the first character. -/
lemma Flat.head?_bytes (hp : Flat p) (u : Text) : u.bytes.head?.any p = u.head?.any p := by
  cases u with
  | nil => rfl
  | cons c u =>
    obtain ⟨b, bs, hbytes⟩ := List.exists_cons_of_ne_nil (bytesOf_ne_nil c)
    rw [bytes_cons, hbytes]
    exact hp.of_mem (by simp [hbytes])

/-- To be a given character of ASCII is a flat test. -/
lemma flat_eq (hc : c.toNat < 128) : Flat (· == c) := by
  intro x y hx hy
  have hxc : x ≠ c := by rintro rfl; omega
  have hyc : y ≠ c := by rintro rfl; omega
  simp [hxc, hyc]

/-- A byte of ASCII stands for itself. -/
lemma head?_bytes_eq_some_iff (hc : c.toNat < 128) : u.bytes.head? = some c ↔ u.head? = some c := by
  have h := (flat_eq hc).head?_bytes u
  constructor
  · intro hsome
    rw [hsome] at h
    cases u with
    | nil => simp at h
    | cons x u => simpa using h.symm
  · intro hsome
    rw [hsome] at h
    cases hhead : u.bytes.head? with
    | none => simp [hhead] at h
    | some x => simpa [hhead] using h

end Text

namespace Parameter

lemma flat_isLayout : Flat isLayout := by
  have h : ∀ c : Char, 128 ≤ c.toNat → isLayout c = false := by
    intro c hc
    by_contra hlayout
    simp only [isLayout, Bool.not_eq_false, Bool.or_eq_true, beq_iff_eq] at hlayout
    rcases hlayout with (((rfl | rfl) | rfl) | rfl) | rfl <;> exact absurd hc (by decide)
  intro c d hc hd
  rw [h c hc, h d hd]

lemma isEnd_of_le {c : Char} (hc : 128 ≤ c.toNat) : isEnd c = false := by
  by_contra hend
  simp only [isEnd, Bool.not_eq_false, Bool.or_eq_true, beq_iff_eq] at hend
  rcases hend with rfl | rfl <;> exact absurd hc (by decide)

lemma flat_isEnd : Flat isEnd := by
  intro c d hc hd
  rw [isEnd_of_le hc, isEnd_of_le hd]

lemma flat_isNameChar : Flat isNameChar := by
  have h : ∀ c : Char, 128 ≤ c.toNat → isNameChar c = true := by
    intro c hc
    by_contra hname
    simp only [isNameChar, Bool.not_eq_true', Bool.not_eq_false, Bool.or_eq_true,
      beq_iff_eq] at hname
    rcases hname with ((rfl | rfl) | rfl) | rfl <;> exact absurd hc (by decide)
  intro c d hc hd
  rw [h c hc, h d hd]

lemma flat_isIdentifier : Flat isIdentifier := by
  intro c d hc hd
  simp [isIdentifier, hc, hd]

/-- Whether a parameter ends can be told from the bytes. -/
lemma atEnd_bytes (standalone : Bool) (u : Text) :
    atEnd standalone u.bytes = atEnd standalone u := by
  unfold atEnd
  rw [Text.skipLayout, (flat_isLayout.takeWhile_bytes u).2, Text.skipLayout]
  cases hu : u.dropWhile isLayout with
  | nil => rfl
  | cons c v =>
    obtain ⟨b, bs, hbytes⟩ := List.exists_cons_of_ne_nil (bytesOf_ne_nil c)
    rw [bytes_cons, hbytes]
    exact flat_isEnd.of_mem (by simp [hbytes])

end Parameter

/-! ## Attempts that read what a reader reads -/

namespace Attempt

variable {α β : Type} {source before rest : Text} {d : Nat} {m m' : Attempt α} {c c' : Cursor}
  {read read' : Text → Option (α × Text)} {k : α → Attempt β} {next : α → Text → Option (β × Text)}

/-- After an attempt that succeeds comes the next one. -/
lemma bind_of_some {a : α} (h : m c = .ok (some a, c')) : (m >>= k) c = k a c' := by
  simp only [bind, h]

lemma bind_of_none (h : m c = .ok (none, c')) : (m >>= k) c = .ok (none, c') := by
  simp only [bind, h]

/-- An attempt that is optional succeeds, whatever the attempt comes to. -/
lemma optional_of_ok {a? : Option α} (h : m c = .ok (a?, c')) :
    optional m c = .ok (some a?, c') := by
  rw [optional, h]

/-- What an attempt comes to where a reader gives the first of the two: the same value, with the
cursor behind it, or a failure. -/
inductive Agrees (source : Text) (d : Nat) :
    Option (α × Text) → Except CursorFault (Option α × Cursor) → Prop where
  | read {a : α} {before rest : Text} (h : source = before ++ rest) :
      Agrees source d (some (a, rest)) (.ok (some a, ⟨before.byteLength, d⟩))
  | failed (position : Nat) : Agrees source d none (.ok (none, ⟨position, d⟩))

/-- Where the reader succeeds, so does the attempt, with the cursor behind what was read. -/
lemma Agrees.of_some {a : α} {outcome : Except CursorFault (Option α × Cursor)}
    (h : Agrees source d (some (a, rest)) outcome) :
    ∃ before, source = before ++ rest ∧ outcome = .ok (some a, ⟨before.byteLength, d⟩) := by
  cases h with
  | read hsplit => exact ⟨_, hsplit, rfl⟩

/-- Where the reader fails, so does the attempt. -/
lemma Agrees.of_none {outcome : Except CursorFault (Option α × Cursor)}
    (h : Agrees source d none outcome) : ∃ position, outcome = .ok (none, ⟨position, d⟩) := by
  cases h with
  | failed position => exact ⟨position, rfl⟩

/-- Attempts one after the other agree with readers one after the other. -/
lemma Agrees.bind {result : Option (α × Text)} (next : α → Text → Option (β × Text))
    (h : Agrees source d result (m c))
    (hk : ∀ a before rest, source = before ++ rest → result = some (a, rest) →
      Agrees source d (next a rest) (k a ⟨before.byteLength, d⟩)) :
    Agrees source d (result.bind fun x => next x.1 x.2) ((m >>= k) c) := by
  cases result with
  | none =>
    obtain ⟨position, hout⟩ := h.of_none
    rw [bind_of_none hout]
    exact .failed position
  | some x =>
    obtain ⟨before, hsplit, hout⟩ := h.of_some
    rw [bind_of_some hout]
    exact hk x.1 before x.2 hsplit rfl

/-- A value that is changed afterwards is changed on both sides. -/
lemma Agrees.map {result : Option (α × Text)} (f : α → β) (h : Agrees source d result (m c)) :
    Agrees source d (result.map fun x => (f x.1, x.2)) ((m >>= fun a => pure (f a)) c) := by
  rw [Option.map_eq_bind]
  exact h.bind (fun a rest => some (f a, rest)) fun _ _ _ hsplit _ => .read hsplit

/-- With `d` lists open, the attempt reads in place what the reader takes off the front. -/
def Reads (source : Text) (d : Nat) (m : Attempt α) (read : Text → Option (α × Text)) : Prop :=
  ∀ ⦃before rest⦄, source = before ++ rest → Agrees source d (read rest) (m ⟨before.byteLength, d⟩)

/-- An attempt that fails leaves the cursor where it is. -/
def Stays (source : Text) (d : Nat) (m : Attempt α) : Prop :=
  ∀ ⦃before rest c⦄, source = before ++ rest → m ⟨before.byteLength, d⟩ = .ok (none, c) →
    c = ⟨before.byteLength, d⟩

lemma Reads.congr (h : Reads source d m read) (heq : ∀ t, read t = read' t) :
    Reads source d m read' := by
  intro before rest hsplit
  rw [← heq]
  exact h hsplit

lemma reads_pure (a : α) : Reads source d (pure a) fun t => some (a, t) :=
  fun _ _ hsplit => .read hsplit

lemma reads_fail : Reads source d (fail : Attempt α) fun _ => none :=
  fun _ _ _ => .failed _

/-- Attempts one after the other read what readers one after the other do. -/
lemma Reads.bind (hm : Reads source d m read) (hk : ∀ a, Reads source d (k a) (next a)) :
    Reads source d (m >>= k) fun t => (read t).bind fun x => next x.1 x.2 := by
  intro before rest hsplit
  exact (hm hsplit).bind next fun a _ _ hsplit' _ => hk a hsplit'

/-- The first attempt that succeeds reads what the first reader that succeeds does: the cursor is
put back in between. -/
lemma Reads.firstOf (hm : Reads source d m read) (hm' : Reads source d m' read') :
    Reads source d (firstOf m m') fun t => (read t).or (read' t) := by
  intro before rest hsplit
  have h := hm hsplit
  show Agrees source d ((read rest).or (read' rest)) ((optional m >>= _) ⟨before.byteLength, d⟩)
  cases hread : read rest with
  | none =>
    rw [hread] at h
    obtain ⟨position, hout⟩ := h.of_none
    -- the cursor is put back before the second attempt
    rw [bind_of_some (optional_of_ok hout)]
    exact hm' hsplit
  | some x =>
    rw [hread] at h
    obtain ⟨before', hsplit', hout⟩ := h.of_some
    rw [bind_of_some (optional_of_ok hout)]
    exact .read hsplit'

/-- An optional attempt reads what the reader does, or nothing. -/
lemma Reads.optional (hm : Reads source d m read) (hs : Stays source d m) :
    Reads source d (optional m) fun t =>
      some ((read t).map (·.1), ((read t).map (·.2)).getD t) := by
  intro before rest hsplit
  have h := hm hsplit
  beta_reduce
  cases hread : read rest with
  | none =>
    rw [hread] at h
    obtain ⟨position, hout⟩ := h.of_none
    rw [optional_of_ok hout, hs hsplit hout]
    exact .read hsplit
  | some x =>
    rw [hread] at h
    obtain ⟨before', hsplit', hout⟩ := h.of_some
    rw [optional_of_ok hout]
    exact .read hsplit'

/-! ## Tokens in place -/

lemma peek_apply (hsplit : source = before ++ rest) :
    peek source ⟨before.byteLength, d⟩ = .ok (some rest.bytes.head?, ⟨before.byteLength, d⟩) := by
  rw [hsplit, ← bytesFrom_append before rest]
  rfl

/-- The text between boundaries can be taken. -/
lemma slice_apply {part : Text} {start stop : Nat} (h : source.byteSlice? start stop = some part)
    (c : Cursor) : slice source start stop c = .ok (some part, c) := by
  rw [slice, h]
  rfl

/-- The text between two positions can be taken if they are boundaries in order. -/
lemma slice_ok_iff {start stop : Nat} :
    (∃ r, slice source start stop c = .ok r) ↔ (source.byteSlice? start stop).isSome := by
  cases hslice : source.byteSlice? start stop with
  | none =>
    simp only [Option.isSome_none, Bool.false_eq_true, iff_false, not_exists]
    intro r h
    rw [slice, hslice] at h
    exact nomatch h
  | some part => exact ⟨fun _ => rfl, fun _ => ⟨_, slice_apply hslice c⟩⟩

/-- A part behind the cursor can be sliced out. -/
lemma byteSlice?_part {part : Text} (hsplit : source = before ++ (part ++ rest)) :
    source.byteSlice? before.byteLength (before.byteLength + part.byteLength) = some part :=
  byteSlice?_eq_some_iff.2 ⟨before, rest, hsplit, rfl, byteLength_append _ _⟩

/-- Bytes are taken off in place as characters are taken off the front. -/
lemma reads_takeWhile {p : Char → Bool} (hp : Flat p) :
    Reads source d (takeWhile source p) fun t => some (t.takeWhile p, t.dropWhile p) := by
  intro before rest hsplit
  have hparts : source = before ++ (rest.takeWhile p ++ rest.dropWhile p) := by
    rw [List.takeWhile_append_dropWhile]
    exact hsplit
  have hlength : ((source.bytesFrom before.byteLength).takeWhile p).length =
      byteLength (rest.takeWhile p) := by
    rw [hsplit, bytesFrom_append, (hp.takeWhile_bytes rest).1, length_bytes]
  show Agrees source d _ (slice source before.byteLength
    (before.byteLength + ((source.bytesFrom before.byteLength).takeWhile p).length)
    ⟨before.byteLength + ((source.bytesFrom before.byteLength).takeWhile p).length, d⟩)
  rw [hlength, slice_apply (byteSlice?_part hparts), ← byteLength_append]
  rw [← List.append_assoc] at hparts
  exact .read hparts

lemma reads_skipLayout : Reads source d (skipLayout source) fun t => some ((), Text.skipLayout t) :=
  (reads_takeWhile flat_isLayout).bind fun _ => reads_pure ()

/-- A word is read in place where it stands. -/
lemma word_apply (w : Text) (hsplit : source = before ++ rest) :
    word source w ⟨before.byteLength, d⟩ =
      match expect? w rest with
      | some _ => .ok (some (), ⟨before.byteLength + w.byteLength, d⟩)
      | none => .ok (none, ⟨before.byteLength, d⟩) := by
  have hslice : source.byteSlice? before.byteLength source.byteLength = some rest := by
    have hpart : source.byteSlice? before.byteLength (before.byteLength + rest.byteLength) =
        some rest := by
      apply byteSlice?_part
      rw [hsplit, List.append_nil]
    rwa [← byteLength_append, ← hsplit] at hpart
  show (slice source before.byteLength source.byteLength >>= fun rest =>
    if w.isPrefixOf rest then seek (before.byteLength + w.byteLength) else fail)
      ⟨before.byteLength, d⟩ = _
  rw [bind_of_some (slice_apply hslice _)]
  cases hword : expect? w rest with
  | none =>
    have hprefix : ¬w.isPrefixOf rest := by
      intro hprefix
      obtain ⟨rest', hrest⟩ := List.isPrefixOf_iff_prefix.1 hprefix
      rw [expect?_eq_some_iff.2 hrest.symm] at hword
      simp at hword
    rw [if_neg hprefix]
    rfl
  | some rest' =>
    have hprefix : w.isPrefixOf rest :=
      List.isPrefixOf_iff_prefix.2 ⟨rest', (expect?_eq_some_iff.1 hword).symm⟩
    rw [if_pos hprefix]
    rfl

/-- Reading a word in place is reading it off the front. -/
lemma reads_word (w : Text) :
    Reads source d (word source w) fun t => (expect? w t).map fun rest => ((), rest) := by
  intro before rest hsplit
  rw [word_apply w hsplit]
  beta_reduce
  cases hword : expect? w rest with
  | none => exact .failed _
  | some rest' =>
    have hsplit' : source = (before ++ w) ++ rest' := by
      rw [hsplit, expect?_eq_some_iff.1 hword, List.append_assoc]
    rw [← byteLength_append]
    exact .read hsplit'

/-- A word that does not stand there leaves the cursor where it is. -/
lemma stays_word (w : Text) : Stays source d (word source w) := by
  intro before rest c hsplit h
  rw [word_apply w hsplit] at h
  split at h
  · simp at h
  · simpa using h.symm

/-- A byte of ASCII is read in place where the character stands. -/
lemma byte_apply {x : Char} (hx : x.toNat < 128) (hsplit : source = before ++ rest) :
    byte source x ⟨before.byteLength, d⟩ =
      if rest.head? = some x then .ok (some (), ⟨before.byteLength + 1, d⟩)
      else .ok (none, ⟨before.byteLength, d⟩) := by
  show (peek source >>= fun b? => if b? = some x then position >>= fun start => seek (start + 1)
    else fail) ⟨before.byteLength, d⟩ = _
  rw [bind_of_some (peek_apply hsplit)]
  simp only [head?_bytes_eq_some_iff hx]
  split_ifs <;> rfl

lemma byteLength_singleton {x : Char} (hx : x.toNat < 128) : byteLength [x] = 1 := by
  rw [← length_bytes, bytes_cons, bytesOf_of_ascii hx]
  rfl

lemma expect?_of_ne {x e : Char} {t : Text} (h : e ≠ x) : expect? [x] (e :: t) = none :=
  if_neg (Ne.symm h)

lemma byte_of_cons {x : Char} (hx : x.toNat < 128) (hsplit : source = before ++ x :: rest) :
    source = (before ++ [x]) ++ rest ∧
      byte source x ⟨before.byteLength, d⟩ = .ok (some (), ⟨byteLength (before ++ [x]), d⟩) := by
  constructor
  · rw [hsplit, List.append_assoc, List.singleton_append]
  · rw [byte_apply hx hsplit, List.head?_cons, if_pos rfl, byteLength_append,
      byteLength_singleton hx]

/-- Reading a byte of ASCII in place is reading the character off the front. -/
lemma reads_byte {x : Char} (hx : x.toNat < 128) :
    Reads source d (byte source x) fun t => (expect? [x] t).map fun rest => ((), rest) := by
  intro before rest hsplit
  beta_reduce
  cases rest with
  | nil =>
    rw [byte_apply hx hsplit]
    exact .failed _
  | cons c rest =>
    by_cases hc : c = x
    · subst hc
      obtain ⟨hsplit', hbyte⟩ := byte_of_cons (d := d) hx hsplit
      rw [hbyte, expect?, if_pos rfl]
      exact .read hsplit'
    · rw [byte_apply hx hsplit, List.head?_cons, if_neg (by simpa using hc), expect?_of_ne hc]
      exact .failed _

lemma stays_byte {x : Char} (hx : x.toNat < 128) : Stays source d (byte source x) := by
  intro before rest c hsplit h
  rw [byte_apply hx hsplit] at h
  split_ifs at h
  · simp at h
  · simpa using h.symm

/-- Whether a parameter ends can be told in place. -/
lemma atEnd_apply (standalone : Bool) (hsplit : source = before ++ rest) :
    atEnd source standalone ⟨before.byteLength, d⟩ =
      .ok (some (Parameter.atEnd standalone rest), ⟨before.byteLength, d⟩) := by
  have hle : ¬source.byteLength < before.byteLength := by
    rw [hsplit, byteLength_append]
    omega
  show (if source.byteLength < before.byteLength then fault _ else _ : Attempt Bool) _ = _
  rw [if_neg hle, hsplit, bytesFrom_append, atEnd_bytes]
  rfl

/-- An attempt that has to end a parameter reads what such a reader does. -/
lemma Reads.ending (standalone : Bool) (hm : Reads source d m read) :
    Reads source d (ending source standalone m) fun t =>
      (read t).filter (Parameter.atEnd standalone ·.2) := by
  have hk : ∀ a : α, Reads source d
      (atEnd source standalone >>= fun ends => if ends then pure a else fail)
      fun t => if Parameter.atEnd standalone t then some (a, t) else none := by
    intro a before rest hsplit
    rw [bind_of_some (atEnd_apply standalone hsplit)]
    beta_reduce
    split_ifs
    · exact .read hsplit
    · exact .failed _
  refine (hm.bind hk).congr fun t => ?_
  cases read t <;> rfl

lemma reads_typeKeyword :
    Reads source d (typeKeyword source) fun t => (typeKeyword? t).map fun rest => ((), rest) := by
  intro before rest hsplit
  have hword := ((reads_word (d := d) "typename".toList).firstOf (reads_word "class".toList)) hsplit
  beta_reduce at hword
  rw [← Option.map_or] at hword
  show Agrees source d ((typeKeyword? rest).map _)
    ((firstOf (word source "typename".toList) (word source "class".toList) >>= fun _ =>
      peek source >>= fun b? => if b?.any isIdentifier then
        seek before.byteLength >>= fun _ => fail else pure ()) ⟨before.byteLength, d⟩)
  unfold typeKeyword?
  simp only [Option.orElse_eq_orElse, Option.orElse_eq_or]
  generalize (expect? "typename".toList rest).or (expect? "class".toList rest) = result at hword ⊢
  cases result with
  | none =>
    obtain ⟨position, hout⟩ := hword.of_none
    rw [bind_of_none hout]
    exact .failed position
  | some rest' =>
    obtain ⟨before', hsplit', hout⟩ := hword.of_some
    rw [bind_of_some hout, bind_of_some (peek_apply hsplit'), flat_isIdentifier.head?_bytes]
    cases rest' with
    | nil => exact .read hsplit'
    | cons c rest' =>
      by_cases hc : isIdentifier c
      · rw [if_pos (show ((c :: rest').head?).any isIdentifier from hc)]
        simp only [if_pos hc]
        exact .failed _
      · rw [if_neg (show ¬((c :: rest').head?).any isIdentifier from hc)]
        simp only [if_neg hc]
        exact .read hsplit'


/-! ## Groups in place

Inside a group the cursor goes through the bytes of a character one by one. The bytes of a character
outside ASCII open and close nothing, so behind the last of them as many brackets are open as in
front of the first, and from there on the group goes on like the rest of the text. -/

lemma length_bytesOf (e : Char) : (bytesOf e).length = e.utf8Size := by
  rw [bytesOf, List.length_map, String.length_utf8EncodeChar]

lemma bytesFrom_succ {p : Nat} {b : Char} {l : Text} (h : source.bytesFrom p = b :: l) :
    source.bytesFrom (p + 1) = l := by
  rw [bytesFrom, ← List.tail_drop, List.map_tail]
  exact congrArg List.tail h

/-- At a character stand its bytes. -/
lemma bytesFrom_cons {e : Char} (hsplit : source = before ++ e :: rest) :
    source.bytesFrom before.byteLength = bytesOf e ++ rest.bytes := by
  rw [hsplit, bytesFrom_append, bytes_cons]

section Loops

variable {loop : Nat → Nat → Attempt Unit} {next : Char → Nat → Nat} {P : Char → Prop}

/-- Bytes outside ASCII are stepped over. -/
lemma loop_wide
    (hwide : ∀ ⦃b⦄, 128 ≤ b.toNat → P b ∧ ∀ opened, next b opened = opened + 1)
    (hstep : ∀ ⦃rounds opened p b l⦄, P b → source.bytesFrom p = b :: l →
      loop (rounds + 1) (opened + 1) ⟨p, d⟩ = loop rounds (next b opened) ⟨p + 1, d⟩)
    {l w : Text} (hl : ∀ b ∈ l, 128 ≤ b.toNat) (rounds opened : Nat) {p : Nat}
    (hbytes : source.bytesFrom p = l ++ w) :
    loop (rounds + l.length) (opened + 1) ⟨p, d⟩ =
      loop rounds (opened + 1) ⟨p + l.length, d⟩ := by
  induction l generalizing p with
  | nil => rfl
  | cons b l ih =>
    obtain ⟨hb, hnext⟩ := hwide (hl b List.mem_cons_self)
    have hrest : loop (rounds + l.length) (opened + 1) ⟨p + 1, d⟩ = _ :=
      ih (fun x hx => hl x (List.mem_cons_of_mem _ hx)) (bytesFrom_succ hbytes)
    rw [List.length_cons, ← Nat.add_assoc, hstep hb hbytes, hnext, hrest, Nat.add_assoc,
      Nat.add_comm 1]

/-- A loop that steps over bytes, and counts something on the way, steps over a whole character
and counts it once. -/
lemma loop_char
    (hwide : ∀ ⦃b⦄, 128 ≤ b.toNat → P b ∧ ∀ opened, next b opened = opened + 1)
    (hstep : ∀ ⦃rounds opened p b l⦄, P b → source.bytesFrom p = b :: l →
      loop (rounds + 1) (opened + 1) ⟨p, d⟩ = loop rounds (next b opened) ⟨p + 1, d⟩)
    {e : Char} (he : P e) (hsplit : source = before ++ e :: rest) (rounds opened : Nat) :
    loop (rounds + e.utf8Size) (opened + 1) ⟨before.byteLength, d⟩ =
      loop rounds (next e opened) ⟨byteLength (before ++ [e]), d⟩ := by
  have hbytes := bytesFrom_cons hsplit
  have hsize : byteLength (before ++ [e]) = before.byteLength + e.utf8Size := by
    rw [byteLength_append, byteLength_cons]
    rfl
  rw [hsize]
  by_cases hascii : e.toNat < 128
  · rw [bytesOf_of_ascii hascii] at hbytes
    have hone : e.utf8Size = 1 := by
      rw [← length_bytesOf, bytesOf_of_ascii hascii]
      rfl
    rw [hone]
    exact hstep he hbytes
  · have hwideBytes : ∀ b ∈ bytesOf e, 128 ≤ b.toNat :=
      fun b hb => le_of_mem_bytesOf (Nat.le_of_not_lt hascii) hb
    rw [(hwide (Nat.le_of_not_lt hascii)).2, ← length_bytesOf]
    exact loop_wide hwide hstep hwideBytes rounds opened hbytes

end Loops

lemma peek_of_head? {p : Nat} {b? : Option Char} (h : (source.bytesFrom p).head? = b?) :
    peek source ⟨p, d⟩ = .ok (some b?, ⟨p, d⟩) := by
  rw [← h]
  rfl

/-- How a group goes on behind `rest` begins, with the brackets `n` open and until only `n'` are:
the cursor comes to the place where they are closed, or there is none. -/
inductive Closes (grouped : Bool) (d : Nat) (before rest : Text) (n n' : Nesting) :
    Except CursorFault (Option Unit × Cursor) → Prop where
  | closed {part rest' : Text} (hrest : rest = part ++ rest')
      (hrun : closedRun grouped n rest = (closedRun grouped n' rest').map (prepend part)) :
      Closes grouped d before rest n n' (.ok (some (), ⟨byteLength (before ++ part), d⟩))
  | unclosed (position : Nat) (hrun : closedRun grouped n rest = none) :
      Closes grouped d before rest n n' (.ok (none, ⟨position, d⟩))

section Groups

variable {grouped : Bool} {n n₁ n' : Nesting} {rounds opened a : Nat} {e : Char}

lemma closes_refl : Closes grouped d before rest n n (.ok (some (), ⟨before.byteLength, d⟩)) := by
  have h : Closes grouped d before rest n n
      (.ok (some (), ⟨byteLength (before ++ []), d⟩)) :=
    .closed rfl (map_prepend_nil _).symm
  rwa [List.append_nil] at h

/-- How a group goes on behind characters that are part of it. -/
lemma Closes.append {front : Text} {outcome : Except CursorFault (Option Unit × Cursor)}
    (h : Closes grouped d (before ++ front) rest n₁ n' outcome)
    (hrun : closedRun grouped n (front ++ rest) = (closedRun grouped n₁ rest).map (prepend front)) :
    Closes grouped d before (front ++ rest) n n' outcome := by
  cases h with
  | @closed part rest' hrest hrun' =>
    rw [List.append_assoc]
    have hparts : front ++ rest = (front ++ part) ++ rest' := by
      rw [hrest, List.append_assoc]
    refine .closed hparts ?_
    rw [hrun, hrun', map_prepend_prepend]
  | unclosed position hrun' =>
    refine .unclosed position ?_
    rw [hrun, hrun']
    rfl

/-- One group after the other. -/
lemma Closes.bind {m : Attempt Unit} {k : Unit → Attempt Unit}
    (h : Closes grouped d before rest n n₁ (m c))
    (hk : ∀ part rest', rest = part ++ rest' →
      Closes grouped d (before ++ part) rest' n₁ n' (k () ⟨byteLength (before ++ part), d⟩)) :
    Closes grouped d before rest n n' ((m >>= k) c) := by
  generalize hout : m c = outcome at h
  cases h with
  | @closed part rest' hrest hrun =>
    rw [bind_of_some hout]
    have hrest' := hk part rest' hrest
    subst hrest
    exact hrest'.append hrun
  | unclosed position hrun =>
    rw [bind_of_none hout]
    exact .unclosed position hrun

lemma closeParens_zero : closeParens source rounds 0 = pure () := by
  cases rounds <;> rfl

/-- A byte inside parentheses opens one, closes one or is passed. -/
lemma closeParens_step {p : Nat} {b : Char} {l : Text} (h : source.bytesFrom p = b :: l) :
    closeParens source (rounds + 1) (opened + 1) ⟨p, d⟩ =
      closeParens source rounds
        (if b = '(' then opened + 2 else if b = ')' then opened else opened + 1) ⟨p + 1, d⟩ := by
  have hpeek : peek source ⟨p, d⟩ = .ok (some (some b), ⟨p, d⟩) :=
    peek_of_head? (by rw [h]; rfl)
  rw [closeParens, bind_of_some hpeek]
  rfl

lemma push_parens : Nesting.push grouped ⟨a, opened + 1⟩ e =
    ⟨a, if e = '(' then opened + 2 else if e = ')' then opened else opened + 1⟩ := by
  rw [Nesting.push, if_neg (Nat.succ_ne_zero opened)]
  split_ifs <;> rfl

/-- At the end of the text open parentheses stay open. -/
lemma closeParens_end {p : Nat} (h : source.bytesFrom p = []) :
    closeParens source (rounds + 1) (opened + 1) ⟨p, d⟩ = .ok (none, ⟨p, d⟩) := by
  have hpeek : peek source ⟨p, d⟩ = .ok (some none, ⟨p, d⟩) := peek_of_head? (by rw [h]; rfl)
  rw [closeParens, bind_of_some hpeek]
  rfl

lemma ne_of_wide {b x : Char} (hx : x.toNat < 128) (hb : 128 ≤ b.toNat) : b ≠ x := by
  rintro rfl
  omega

/-- A character inside parentheses opens one, closes one or is passed, in as many rounds as it has
bytes. -/
lemma closeParens_char (hsplit : source = before ++ e :: rest) (rounds opened : Nat) :
    closeParens source (rounds + e.utf8Size) (opened + 1) ⟨before.byteLength, d⟩ =
      closeParens source rounds
        (if e = '(' then opened + 2 else if e = ')' then opened else opened + 1)
        ⟨byteLength (before ++ [e]), d⟩ := by
  have hwide : ∀ ⦃b : Char⦄, 128 ≤ b.toNat → True ∧ ∀ opened : Nat,
      (if b = '(' then opened + 2 else if b = ')' then opened else opened + 1) = opened + 1 := by
    intro b hb
    refine ⟨trivial, fun opened => ?_⟩
    rw [if_neg (ne_of_wide (by decide) hb), if_neg (ne_of_wide (by decide) hb)]
  exact loop_char hwide (fun _ _ _ _ _ _ h => closeParens_step h) trivial hsplit rounds opened

/-- Parentheses are closed where the run says so. -/
lemma closeParens_closes (grouped : Bool) (a : Nat) (hsplit : source = before ++ rest)
    (hrounds : rest.byteLength < rounds) :
    Closes grouped d before rest ⟨a, opened⟩ ⟨a, 0⟩
      (closeParens source rounds opened ⟨before.byteLength, d⟩) := by
  induction rest generalizing before rounds opened with
  | nil =>
    cases opened with
    | zero =>
      rw [closeParens_zero]
      exact closes_refl
    | succ opened =>
      obtain ⟨rounds, rfl⟩ := Nat.exists_eq_add_one_of_ne_zero (Nat.ne_zero_of_lt hrounds)
      rw [closeParens_end (by rw [hsplit, bytesFrom_append]; rfl)]
      exact .unclosed _ (if_neg (by simp [Nesting.none]))
  | cons e rest ih =>
    cases opened with
    | zero =>
      rw [closeParens_zero]
      exact closes_refl
    | succ opened =>
      have hopen : ¬((⟨a, opened + 1⟩ : Nesting) = .none ∧ isEnd e) := by simp [Nesting.none]
      have hrun : closedRun grouped ⟨a, opened + 1⟩ (e :: rest) = _ := closedRun_cons hopen
      rw [push_parens] at hrun
      rw [byteLength_cons] at hrounds
      obtain ⟨left, rfl⟩ : ∃ left, rounds = left + e.utf8Size := ⟨rounds - e.utf8Size, by omega⟩
      have hsplit' : source = (before ++ [e]) ++ rest := by
        rw [hsplit, List.append_assoc, List.singleton_append]
      rw [closeParens_char hsplit]
      exact (ih hsplit' (by omega)).append hrun

/-- A group in parentheses is passed in place as a run passes it. -/
lemma parenGroup_closes (grouped : Bool) (a : Nat) (hsplit : source = before ++ '(' :: rest) :
    Closes grouped d (before ++ ['(']) rest ⟨a, 1⟩ ⟨a, 0⟩
      (parenGroup source ⟨before.byteLength, d⟩) := by
  obtain ⟨hsplit', hbyte⟩ := byte_of_cons (d := d) (x := '(') (by decide) hsplit
  rw [parenGroup, bind_of_some hbyte]
  refine closeParens_closes grouped a hsplit' ?_
  rw [hsplit', byteLength_append]
  omega

lemma closeAngles_zero : closeAngles source rounds 0 = pure () := by
  cases rounds <;> rfl

/-- At the end of the text open angle brackets stay open. -/
lemma closeAngles_end {p : Nat} (h : source.bytesFrom p = []) :
    closeAngles source (rounds + 1) (opened + 1) ⟨p, d⟩ = .ok (none, ⟨p, d⟩) := by
  have hpeek : peek source ⟨p, d⟩ = .ok (some none, ⟨p, d⟩) := peek_of_head? (by rw [h]; rfl)
  rw [closeAngles, bind_of_some hpeek]
  rfl

/-- A byte inside angle brackets opens one, closes one or is passed. -/
lemma closeAngles_step {p : Nat} {b : Char} {l : Text} (hb : b ≠ '(')
    (h : source.bytesFrom p = b :: l) :
    closeAngles source (rounds + 1) (opened + 1) ⟨p, d⟩ =
      closeAngles source rounds
        (if b = '<' then opened + 2 else if b = '>' then opened else opened + 1) ⟨p + 1, d⟩ := by
  have hpeek : peek source ⟨p, d⟩ = .ok (some (some b), ⟨p, d⟩) :=
    peek_of_head? (by rw [h]; rfl)
  rw [closeAngles, bind_of_some hpeek]
  show (if b = '(' then _ else _ : Attempt Unit) _ = _
  rw [if_neg hb]
  rfl

/-- A parenthesis inside angle brackets opens a group of its own. -/
lemma closeAngles_paren (hsplit : source = before ++ '(' :: rest) :
    closeAngles source (rounds + 1) (opened + 1) ⟨before.byteLength, d⟩ =
      (parenGroup source >>= fun _ => closeAngles source rounds (opened + 1))
        ⟨before.byteLength, d⟩ := by
  have hpeek : peek source ⟨before.byteLength, d⟩ = .ok (some (some '('), _) :=
    peek_of_head? (by rw [bytesFrom_cons hsplit]; rfl)
  rw [closeAngles, bind_of_some hpeek]
  rfl

/-- A character inside angle brackets opens one, closes one or is passed, in as many rounds as it
has bytes. -/
lemma closeAngles_char (he : e ≠ '(') (hsplit : source = before ++ e :: rest)
    (rounds opened : Nat) :
    closeAngles source (rounds + e.utf8Size) (opened + 1) ⟨before.byteLength, d⟩ =
      closeAngles source rounds
        (if e = '<' then opened + 2 else if e = '>' then opened else opened + 1)
        ⟨byteLength (before ++ [e]), d⟩ := by
  have hwide : ∀ ⦃b : Char⦄, 128 ≤ b.toNat → b ≠ '(' ∧ ∀ opened : Nat,
      (if b = '<' then opened + 2 else if b = '>' then opened else opened + 1) = opened + 1 := by
    intro b hb
    refine ⟨ne_of_wide (by decide) hb, fun opened => ?_⟩
    rw [if_neg (ne_of_wide (by decide) hb), if_neg (ne_of_wide (by decide) hb)]
  exact loop_char hwide (fun _ _ _ _ _ hb h => closeAngles_step hb h) he hsplit rounds opened

lemma push_angles (he : e ≠ '(') : Nesting.push grouped ⟨opened + 1, 0⟩ e =
    ⟨if e = '<' then opened + 2 else if e = '>' then opened else opened + 1, 0⟩ := by
  rw [Nesting.push, if_pos rfl]
  split_ifs <;> simp_all

/-- Angle brackets are closed where the run says so. -/
lemma closeAngles_closes (grouped : Bool) (hsplit : source = before ++ rest)
    (hrounds : rest.byteLength < rounds) :
    Closes grouped d before rest ⟨opened, 0⟩ .none
      (closeAngles source rounds opened ⟨before.byteLength, d⟩) := by
  induction hlength : rest.length using Nat.strong_induction_on
    generalizing before rest rounds opened with
  | h length ih =>
    cases opened with
    | zero =>
      rw [closeAngles_zero]
      exact closes_refl
    | succ opened =>
      cases rest with
      | nil =>
        obtain ⟨rounds, rfl⟩ := Nat.exists_eq_add_one_of_ne_zero (Nat.ne_zero_of_lt hrounds)
        rw [closeAngles_end (by rw [hsplit, bytesFrom_append]; rfl)]
        exact .unclosed _ (if_neg (by simp [Nesting.none]))
      | cons e rest =>
        rw [byteLength_cons] at hrounds
        by_cases he : e = '('
        · subst he
          obtain ⟨rounds, rfl⟩ := Nat.exists_eq_add_one_of_ne_zero (Nat.ne_zero_of_lt hrounds)
          have hpush : Nesting.push grouped ⟨opened + 1, 0⟩ '(' = ⟨opened + 1, 1⟩ := by
            simp [Nesting.push]
          have hopen : ¬((⟨opened + 1, 0⟩ : Nesting) = .none ∧ isEnd '(') := by
            simp [Nesting.none]
          have hrun : closedRun grouped ⟨opened + 1, 0⟩ ('(' :: rest) = _ := closedRun_cons hopen
          rw [hpush] at hrun
          rw [closeAngles_paren hsplit]
          refine ((parenGroup_closes grouped (opened + 1) hsplit).bind ?_).append hrun
          intro part rest' hrest
          refine ih rest'.length ?_ ?_ ?_ rfl
          · rw [← hlength, hrest, List.length_cons, List.length_append]
            omega
          · rw [hsplit, hrest, List.append_assoc, List.append_assoc, List.singleton_append]
          · rw [hrest, byteLength_append] at hrounds
            have hpos := '('.utf8Size_pos
            omega
        · have hopen : ¬((⟨opened + 1, 0⟩ : Nesting) = .none ∧ isEnd e) := by simp [Nesting.none]
          have hrun : closedRun grouped ⟨opened + 1, 0⟩ (e :: rest) = _ := closedRun_cons hopen
          rw [push_angles he] at hrun
          obtain ⟨left, rfl⟩ : ∃ left, rounds = left + e.utf8Size :=
            ⟨rounds - e.utf8Size, by omega⟩
          have hsplit' : source = (before ++ [e]) ++ rest := by
            rw [hsplit, List.append_assoc, List.singleton_append]
          rw [closeAngles_char he hsplit]
          exact (ih rest.length (by rw [← hlength]; simp) hsplit' (by omega) rfl).append hrun

/-- A group in angle brackets is passed in place as a run passes it. -/
lemma angleGroup_closes (grouped : Bool) (hsplit : source = before ++ '<' :: rest) :
    Closes grouped d (before ++ ['<']) rest ⟨1, 0⟩ .none
      (angleGroup source ⟨before.byteLength, d⟩) := by
  obtain ⟨hsplit', hbyte⟩ := byte_of_cons (d := d) (x := '<') (by decide) hsplit
  rw [angleGroup, bind_of_some hbyte]
  refine closeAngles_closes grouped hsplit' ?_
  rw [hsplit', byteLength_append]
  omega

/-! ## Runs in place -/

lemma flat_isPlain (grouped : Bool) : Flat (isPlain grouped) := by
  intro x y hx hy
  have hend := flat_isEnd x y hx hy
  have hangle := flat_eq (c := '<') (by decide) x y hx hy
  have hparen := flat_eq (c := '(') (by decide) x y hx hy
  simp only [isPlain, bne, hend, hangle, hparen]

/-- Plain characters are passed over. -/
lemma closedRun_plain (grouped : Bool) {u : Text} (hu : ∀ e ∈ u, isPlain grouped e) (v : Text) :
    closedRun grouped .none (u ++ v) = (closedRun grouped .none v).map (prepend u) := by
  induction u with
  | nil => exact (map_prepend_nil _).symm
  | cons e u ih =>
    obtain ⟨⟨hend, hangle⟩, hparen⟩ :
        (isEnd e = false ∧ e ≠ '<') ∧ (grouped = false ∨ e ≠ '(') := by
      simpa [isPlain] using hu e List.mem_cons_self
    have hclose : e ≠ '>' := by
      rintro rfl
      exact absurd hend (by decide)
    have hpush : Nesting.none.push grouped e = .none := by
      rw [Nesting.push, if_pos (show Nesting.none.parens = 0 from rfl), if_neg hangle,
        if_neg hclose, if_neg]
      rintro ⟨rfl, hopens | hopens⟩
      · simp_all
      · exact hopens rfl
    rw [List.cons_append, closedRun_cons (by simp [hend]), hpush,
      ih fun x hx => hu x (List.mem_cons_of_mem _ hx), map_prepend_prepend]
    rfl

/-- What comes behind a run. -/
def afterRun (grouped : Bool) (t : Text) : Option (Unit × Text) :=
  (closedRun grouped .none t).map fun r => ((), r.2)

/-- What comes behind a run does not depend on how the run begins. -/
lemma afterRun_append {u v : Text}
    (h : closedRun grouped .none (u ++ v) = (closedRun grouped .none v).map (prepend u)) :
    afterRun grouped (u ++ v) = afterRun grouped v := by
  rw [afterRun, h, Option.map_map]
  rfl

/-- A group at the cursor, and the run behind it. -/
lemma Closes.agrees {group more : Attempt Unit} {front : Text}
    (h : Closes grouped d (before ++ front) rest n .none (group c))
    (hrun : closedRun grouped .none (front ++ rest) =
      (closedRun grouped n rest).map (prepend front))
    (hmore : ∀ part rest', rest = part ++ rest' → Agrees source d (afterRun grouped rest')
      (more ⟨byteLength ((before ++ front) ++ part), d⟩)) :
    Agrees source d (afterRun grouped (front ++ rest)) ((group >>= fun _ => more) c) := by
  generalize hout : group c = outcome at h
  cases h with
  | @closed part rest' hrest hrun' =>
    have hparts : front ++ rest = (front ++ part) ++ rest' := by
      rw [hrest, List.append_assoc]
    rw [hrun', map_prepend_prepend, hparts] at hrun
    rw [bind_of_some hout, hparts, afterRun_append hrun]
    exact hmore part rest' hrest
  | unclosed position hrun' =>
    rw [bind_of_none hout, afterRun, hrun, hrun']
    exact .failed position

/-- A run is passed in place up to where it ends, if there are rounds enough for its bytes. -/
lemma agrees_passRun (grouped : Bool) (hsplit : source = before ++ rest)
    (hrounds : rest.byteLength < rounds) :
    Agrees source d (afterRun grouped rest)
      (passRun source grouped rounds ⟨before.byteLength, d⟩) := by
  induction rounds generalizing before rest with
  | zero => exact absurd hrounds (Nat.not_lt_zero _)
  | succ rounds ih =>
    cases rest with
    | nil =>
      have hpeek : peek source ⟨before.byteLength, d⟩ = .ok (some none, _) := peek_apply hsplit
      rw [passRun, bind_of_some hpeek]
      exact .read hsplit
    | cons e rest =>
      obtain ⟨b, bs, hbytes⟩ := List.exists_cons_of_ne_nil (bytesOf_ne_nil e)
      have hb : b ∈ bytesOf e := by
        rw [hbytes]
        exact List.mem_cons_self
      have hpeek : peek source ⟨before.byteLength, d⟩ =
          .ok (some (some b), ⟨before.byteLength, d⟩) := by
        rw [peek_apply hsplit, bytes_cons, hbytes]
        rfl
      -- the first byte is judged like the character
      have hend : isEnd b = isEnd e := flat_isEnd.of_mem hb
      have hangle : b = '<' ↔ e = '<' := by
        simpa using congrArg (· = true) ((flat_eq (c := '<') (by decide)).of_mem hb)
      have hparen : b = '(' ↔ e = '(' := by
        simpa using congrArg (· = true) ((flat_eq (c := '(') (by decide)).of_mem hb)
      rw [byteLength_cons] at hrounds
      rw [passRun, bind_of_some hpeek]
      dsimp only
      simp only [hend, hangle, hparen]
      have hpos := e.utf8Size_pos
      have hgroup : ∀ part rest', rest = part ++ rest' → Agrees source d (afterRun grouped rest')
          (passRun source grouped rounds ⟨byteLength ((before ++ [e]) ++ part), d⟩) := by
        rintro part rest' rfl
        rw [byteLength_append] at hrounds
        refine ih ?_ (by omega)
        rw [hsplit]
        simp
      split_ifs with hstop hopens hgroups
      · have hnil : afterRun grouped (e :: rest) = some ((), e :: rest) := by
          rw [afterRun, closedRun, if_pos ⟨rfl, hstop⟩]
          rfl
        rw [hnil]
        exact .read hsplit
      · subst hopens
        refine (angleGroup_closes grouped hsplit).agrees ?_ hgroup
        exact closedRun_cons (by simp [hstop])
      · obtain ⟨rfl, rfl⟩ := hgroups
        refine (parenGroup_closes true 0 hsplit).agrees ?_ hgroup
        exact closedRun_cons (by simp [hstop])
      · have hplain : isPlain grouped e := by
          have hparen' : grouped = false ∨ e ≠ '(' := by
            cases grouped <;> simp_all
          simpa [isPlain, hstop, hopens] using hparen'
        obtain ⟨before', hsplit', htake⟩ := (reads_takeWhile (flat_isPlain grouped) hsplit).of_some
        rw [bind_of_some htake]
        have hparts : (e :: rest).takeWhile (isPlain grouped) ++
            (e :: rest).dropWhile (isPlain grouped) = e :: rest :=
          List.takeWhile_append_dropWhile
        have hafter := afterRun_append (closedRun_plain grouped
          (u := (e :: rest).takeWhile (isPlain grouped)) (fun x hx => List.mem_takeWhile_imp hx)
          ((e :: rest).dropWhile (isPlain grouped)))
        rw [hparts] at hafter
        rw [hafter]
        refine ih hsplit' ?_
        -- at least the first character is passed over
        have hsize : byteLength ((e :: rest).takeWhile (isPlain grouped)) +
            byteLength ((e :: rest).dropWhile (isPlain grouped)) =
              e.utf8Size + byteLength rest := by
          rw [← byteLength_append, hparts, byteLength_cons]
        have hfirst : byteLength ((e :: rest).takeWhile (isPlain grouped)) ≠ 0 := by
          rw [List.takeWhile_cons_of_pos hplain, byteLength_cons]
          omega
        omega

lemma reads_filledRun (grouped : Bool) :
    Reads source d (filledRun source grouped) (filledRun? grouped) := by
  intro before rest hsplit
  have hpass : Agrees source d (afterRun grouped rest)
      (passRun source grouped (source.byteLength + 1) ⟨before.byteLength, d⟩) := by
    apply agrees_passRun grouped hsplit
    rw [hsplit, byteLength_append]
    omega
  show Agrees source d _ ((passRun source grouped (source.byteLength + 1) >>= fun _ =>
    position >>= fun stop => slice source before.byteLength stop >>= fun part =>
      if (trim part).isEmpty then fail else pure part : Attempt Text) ⟨before.byteLength, d⟩)
  rw [filledRun?]
  rw [afterRun] at hpass
  cases hrun : closedRun grouped .none rest with
  | none =>
    rw [hrun] at hpass
    obtain ⟨position, hout⟩ := hpass.of_none
    rw [bind_of_none hout]
    exact .failed _
  | some r =>
    rw [hrun] at hpass
    obtain ⟨before', hsplit', hout⟩ := hpass.of_some
    have hparts : source = before ++ (r.1 ++ r.2) := by
      rw [hsplit, closedRun_append hrun]
    obtain rfl : before' = before ++ r.1 := by
      rw [hsplit', ← List.append_assoc] at hparts
      exact List.append_cancel_right hparts
    have hslice : source.byteSlice? before.byteLength (byteLength (before ++ r.1)) = some r.1 := by
      rw [byteLength_append]
      exact byteSlice?_part hparts
    rw [bind_of_some hout]
    show Agrees source d _ ((slice source before.byteLength (byteLength (before ++ r.1)) >>=
      fun part => if (trim part).isEmpty then fail else pure part)
        ⟨byteLength (before ++ r.1), d⟩)
    rw [bind_of_some (slice_apply hslice _)]
    dsimp only
    split_ifs
    · exact .failed _
    · exact .read hsplit'

end Groups

end Attempt

end TemplateFolding
