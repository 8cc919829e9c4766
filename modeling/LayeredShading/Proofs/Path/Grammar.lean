import LayeredShading.Proofs.Path.Reading

/-!
# The grammar of paths

The texts of paths, without a reader: `PrimPath.Spells` says of characters which path they spell.
Two segments are separated by a slash, which may be left out where the first one ends in a choice.
The reader takes exactly the texts of this grammar and gives the path that they spell
(`PrimPath.parse_eq_ok_iff`). So a path has several texts, but it is printed as one of them: the one
that any of them becomes when each slash behind a choice is dropped (`PrimPath.text_of_spells`).
-/

namespace LayeredShading

/-- The characters of a choice: the set and the variant in braces, an equals sign between them. -/
def VariantChoice.chars (choice : VariantChoice) : List Char :=
  '\x7b' :: (choice.set.toList ++ '=' :: (choice.variant.toList ++ ['\x7d']))

/-- The characters of a segment: its name and then its choices. -/
def Segment.chars (segment : Segment) : List Char :=
  segment.name.toList ++ segment.choices.flatMap VariantChoice.chars

namespace PrimPath

/-- Characters spell segments one after the other. A slash stands between two of them, and may be
left out if the first one ends in a choice. -/
inductive SpellsSegments : List Char → List Segment → Prop where
  | last {segment : Segment} : segment.Spellable → SpellsSegments segment.chars [segment]
  | slash {segment : Segment} {chars : List Char} {rest : List Segment} : segment.Spellable →
      SpellsSegments chars rest → SpellsSegments (segment.chars ++ '/' :: chars) (segment :: rest)
  | afterChoice {segment : Segment} {chars : List Char} {rest : List Segment} :
      segment.Spellable → segment.choices ≠ [] → SpellsSegments chars rest →
      SpellsSegments (segment.chars ++ chars) (segment :: rest)

/-- Characters spell a path: a slash the root, and a slash and segments the prim that those lead
to. -/
inductive Spells : List Char → PrimPath → Prop where
  | root : Spells ['/'] root
  | prim {chars : List Char} {segments : List Segment} : SpellsSegments chars segments →
      Spells ('/' :: chars) ⟨segments⟩

theorem toList_text_of_choice (choice : VariantChoice) : choice.text.toList = choice.chars := by
  simp [VariantChoice.text, VariantChoice.chars]

theorem toList_text_of_segment (segment : Segment) : segment.text.toList = segment.chars := by
  have hchoices : (String.join (segment.choices.map VariantChoice.text)).toList =
      segment.choices.flatMap VariantChoice.chars := by
    simp [String.toList_join, List.flatMap_map, toList_text_of_choice]
  rw [Segment.text, String.toList_append, hchoices, Segment.chars]

/-- A spellable segment starts with a character of names. -/
theorem exists_chars_eq_cons {segment : Segment} (h : segment.Spellable) :
    ∃ first rest, segment.chars = first :: rest ∧ isNameChar first = true := by
  obtain ⟨first, rest, hname, hfirst, -⟩ := is_prim_name_iff.mp h.name
  exact ⟨first, rest ++ segment.choices.flatMap VariantChoice.chars, by
    rw [Segment.chars, hname, List.cons_append], hfirst⟩

/-- The characters of segments start with one of names. -/
theorem SpellsSegments.exists_eq_cons {chars : List Char} {segments : List Segment}
    (h : SpellsSegments chars segments) :
    ∃ first rest, chars = first :: rest ∧ isNameChar first = true := by
  cases h with
  | last hsegment => exact exists_chars_eq_cons hsegment
  | slash hsegment _ =>
      obtain ⟨first, rest, hchars, hfirst⟩ := exists_chars_eq_cons hsegment
      exact ⟨first, _, by rw [hchars, List.cons_append], hfirst⟩
  | afterChoice hsegment _ _ =>
      obtain ⟨first, rest, hchars, hfirst⟩ := exists_chars_eq_cons hsegment
      exact ⟨first, _, by rw [hchars, List.cons_append], hfirst⟩

/-! ## What is spelled is read -/

theorem next_slash_at_end_of (finished : List Segment) (segment : Segment) :
    (Scan.atEndOf finished segment).next? '/' = some (.afterSlash (finished ++ [segment])) := by
  obtain ⟨name, choices⟩ := segment
  cases choices <;> rfl

/-- Segments are read from where the name of the first one may start. -/
theorem SpellsSegments.reads {chars : List Char} {segments : List Segment}
    (h : SpellsSegments chars segments) (start : Scan) (finished : List Segment)
    (hstart : ∀ char, isNameChar char = true →
      start.next? char = (continueName "" char).map (.inName finished)) :
    ∃ later, start.Reads chars later ∧ later.finish? = some (finished ++ segments) := by
  induction h generalizing start finished with
  | @last segment hsegment =>
      have hread := reads_segment hstart hsegment
      rw [toList_text_of_segment] at hread
      exact ⟨_, hread, Scan.finish_at_end_of finished segment⟩
  | @slash segment chars rest hsegment _ ih =>
      have hread := reads_segment hstart hsegment
      rw [toList_text_of_segment] at hread
      obtain ⟨later, hlater, hfinish⟩ :=
        ih (.afterSlash (finished ++ [segment])) _ fun _ _ => rfl
      exact ⟨later, hread.append (.cons (next_slash_at_end_of finished segment) hlater),
        by simpa using hfinish⟩
  | @afterChoice segment chars rest hsegment hchoices _ ih =>
      have hread := reads_segment hstart hsegment
      have hend : Scan.atEndOf finished segment = .afterChoice finished segment :=
        if_neg (by simpa using hchoices)
      rw [toList_text_of_segment, hend] at hread
      obtain ⟨later, hlater, hfinish⟩ :=
        ih _ _ fun _ => next_of_name_char (.afterChoice finished segment)
      exact ⟨later, hread.append hlater, by simpa using hfinish⟩

/-- Characters that spell a path are read as that path. -/
theorem of_chars_of_spells {chars : List Char} {path : PrimPath} (h : Spells chars path) :
    ofChars? chars = some path := by
  cases h with
  | root => rfl
  | @prim chars segments hsegments =>
      obtain ⟨later, hread, hfinish⟩ :=
        hsegments.reads (.afterSlash []) [] fun _ _ => rfl
      obtain ⟨first, rest, hchars, -⟩ := hsegments.exists_eq_cons
      rw [Scan.Reads] at hread
      rw [ofChars?, hread]
      · simp [hfinish]
      · simp [hchars]

/-! ## What is read is spelled -/

/-- The segments that the reader has finished. -/
def Scan.finished : Scan → List Segment
  | .afterSlash finished | .inName finished _ | .inSet finished _ _
  | .inVariant finished _ _ _ | .afterChoice finished _ => finished

/-- The characters of the segment that the reader is in. -/
def Scan.openChars : Scan → List Char
  | .afterSlash _ => []
  | .inName _ name => name.toList
  | .inSet _ segment set => segment.chars ++ '\x7b' :: set.toList
  | .inVariant _ segment set variant =>
    segment.chars ++ '\x7b' :: (set.toList ++ '=' :: variant.toList)
  | .afterChoice _ segment => segment.chars

/-- After a choice there is one. -/
def Scan.Chosen : Scan → Prop
  | .afterChoice _ segment => segment.choices ≠ []
  | _ => True

/-- With the characters to come, those of the open segment spell segments behind the finished
ones. -/
def Scan.Completes (scan : Scan) (chars : List Char) (segments : List Segment) : Prop :=
  ∃ rest, segments = scan.finished ++ rest ∧ SpellsSegments (scan.openChars ++ chars) rest

theorem chars_plain (name : String) : (Segment.plain name).chars = name.toList :=
  List.append_nil _

section Step

variable {scan later : Scan} {char : Char} {chars : List Char} {segments : List Segment}

/-- The reader comes behind a choice only when it has read one. -/
theorem Scan.Chosen.of_next (hnext : scan.next? char = some later) : later.Chosen := by
  cases step_of_next hnext with
  | close => exact List.append_ne_nil_of_right_ne_nil _ (List.cons_ne_nil _ _)
  | _ => trivial

/-- A character that goes on with the open segment completes it if those behind it do. -/
theorem Scan.Completes.of_open (h : later.Completes chars segments)
    (hfinished : later.finished = scan.finished)
    (hopen : later.openChars = scan.openChars ++ [char]) :
    scan.Completes (char :: chars) segments := by
  obtain ⟨rest, hsegments, hspells⟩ := h
  refine ⟨rest, hfinished ▸ hsegments, ?_⟩
  simpa [hopen] using hspells

/-- What completes the state after a character completes, behind that character, the state before
it. -/
theorem Scan.Completes.of_next (hsound : scan.Sound) (hchosen : scan.Chosen)
    (hnext : scan.next? char = some later) (h : later.Completes chars segments) :
    scan.Completes (char :: chars) segments := by
  have hpush : ∀ {name continued : String}, continueName name char = some continued →
      continued.toList = name.toList ++ [char] := by
    intro name continued hcontinue
    rw [← (continue_name_eq_some_iff.mp hcontinue).1, String.toList_push]
  cases step_of_next hnext with
  | startName hcontinue | name hcontinue => exact h.of_open rfl (hpush hcontinue)
  | set hcontinue | variant hcontinue =>
      exact h.of_open rfl (by simp [openChars, hpush hcontinue])
  | openAfterName => exact h.of_open rfl (by simp [openChars, chars_plain])
  | equals | openAfterChoice => exact h.of_open rfl (by simp [openChars])
  | close => exact h.of_open rfl (by simp [openChars, Segment.chars, VariantChoice.chars])
  | @slashAfterName finished name =>
      -- the slash ends the open segment
      obtain ⟨rest, rfl, hspells⟩ := h
      refine ⟨.plain name :: rest, List.append_assoc _ _ _, ?_⟩
      rw [openChars, ← chars_plain]
      exact .slash (Segment.spellable_plain hsound.2) hspells
  | @slashAfterChoice finished segment =>
      obtain ⟨rest, rfl, hspells⟩ := h
      exact ⟨segment :: rest, List.append_assoc _ _ _, .slash hsound.2 hspells⟩
  | @nameAfterChoice finished segment _ name hcontinue =>
      -- without a slash the next segment starts with this character
      obtain ⟨rest, rfl, hspells⟩ := h
      rw [openChars, hpush hcontinue] at hspells
      exact ⟨segment :: rest, List.append_assoc _ _ _, .afterChoice hsound.2 hchosen hspells⟩

/-- Characters that are read to their end complete the state from which they are read. -/
theorem Scan.Completes.of_reads (hsound : scan.Sound) (hchosen : scan.Chosen)
    (hreads : scan.Reads chars later) (hfinish : later.finish? = some segments) :
    scan.Completes chars segments := by
  induction chars generalizing scan with
  | nil =>
      obtain rfl : scan = later := Option.some.inj hreads
      cases scan with
      | inName finished name =>
          cases hfinish
          refine ⟨[.plain name], rfl, ?_⟩
          rw [List.append_nil, openChars, ← chars_plain]
          exact .last (Segment.spellable_plain hsound.2)
      | afterChoice finished segment =>
          cases hfinish
          refine ⟨[segment], rfl, ?_⟩
          rw [List.append_nil]
          exact .last hsound.2
      | _ => cases hfinish
  | cons char rest ih =>
      rw [Reads, List.foldlM_cons] at hreads
      obtain ⟨between, hnext, hrest⟩ := Option.bind_eq_some_iff.mp hreads
      exact .of_next hsound hchosen hnext (ih (hsound.next hnext) (.of_next hnext) hrest)

end Step

/-- Characters that are read as a path spell it. -/
theorem spells_of_of_chars {chars : List Char} {path : PrimPath} (h : ofChars? chars = some path) :
    Spells chars path := by
  unfold ofChars? at h
  split at h
  next =>
    cases h
    exact .root
  next =>
    obtain ⟨scan, hscan, hfinish⟩ := Option.bind_eq_some_iff.mp h
    obtain ⟨segments, hsegments, hpath⟩ := Option.bind_eq_some_iff.mp hfinish
    obtain rfl : PrimPath.mk segments = path := Option.some.inj hpath
    have hstart : (Scan.afterSlash []).Sound := nofun
    obtain ⟨rest, rfl, hspells⟩ := Scan.Completes.of_reads hstart trivial hscan hsegments
    exact .prim hspells
  next => cases h

/-- The reader takes exactly the texts of the grammar. -/
theorem parse_eq_ok_iff {text : String} {path : PrimPath} :
    parse text = .ok path ↔ Spells text.toList path := by
  have hread : parse text = .ok path ↔ ofChars? text.toList = some path := by
    rw [parse]
    cases ofChars? text.toList <;> simp
  rw [hread]
  exact ⟨spells_of_of_chars, of_chars_of_spells⟩

/-! ## The printed text -/

/-- The characters without the slashes that stand directly behind a closing brace. -/
def dropSlashes : List Char → List Char
  | '\x7d' :: '/' :: rest => '\x7d' :: dropSlashes rest
  | char :: rest => char :: dropSlashes rest
  | [] => []

theorem drop_slashes_cons {char : Char} {rest : List Char}
    (h : char = '\x7d' → rest.head? ≠ some '/') :
    dropSlashes (char :: rest) = char :: dropSlashes rest := by
  rw [dropSlashes]
  rintro rest' rfl rfl
  exact h rfl rfl

/-- Characters without a slash keep those that follow them as they are, unless a closing brace and
a slash come together. -/
theorem drop_slashes_append (front back : List Char) (h : '/' ∉ front)
    (hmeet : front.getLast? = some '\x7d' → back.head? ≠ some '/') :
    dropSlashes (front ++ back) = front ++ dropSlashes back := by
  induction front with
  | nil => rfl
  | cons char rest ih =>
      have hrest : '/' ∉ rest := List.not_mem_of_not_mem_cons h
      cases rest with
      | nil => exact drop_slashes_cons fun hchar => hmeet (hchar ▸ rfl)
      | cons next more =>
          have hnext : next ≠ '/' := Ne.symm (List.ne_of_not_mem_cons hrest)
          rw [List.cons_append, drop_slashes_cons fun _ => by simpa using hnext,
            ih hrest (by simpa using hmeet)]
          rfl

theorem slash_not_mem_chars {segment : Segment} (h : segment.Spellable) : '/' ∉ segment.chars := by
  have hname : ∀ {name : String}, isPrimName name = true → '/' ∉ name.toList :=
    fun hname hslash => absurd (name_char_of_mem hname hslash) (by decide)
  rw [Segment.chars, List.mem_append, not_or]
  refine ⟨hname h.name, ?_⟩
  rintro hslash
  obtain ⟨choice, hchoice, hslash⟩ := List.mem_flatMap.mp hslash
  have hspellable := h.choices choice hchoice
  simp [VariantChoice.chars, hname hspellable.set, hname hspellable.variant] at hslash

/-- A segment ends in a closing brace exactly if it ends in a choice. -/
theorem get_last_chars_iff {segment : Segment} (h : segment.Spellable) :
    segment.chars.getLast? = some '\x7d' ↔ segment.choices ≠ [] := by
  obtain ⟨name, choices⟩ := segment
  rcases List.eq_nil_or_concat choices with rfl | ⟨front, choice, rfl⟩
  · simp only [Segment.chars, List.flatMap_nil, List.append_nil, ne_eq, not_true, iff_false]
    intro hlast
    exact absurd (name_char_of_mem h.name (List.mem_of_getLast? hlast)) (by decide)
  · have hends : (Segment.mk name (front.concat choice)).chars =
        (name.toList ++ front.flatMap VariantChoice.chars ++
          '\x7b' :: (choice.set.toList ++ '=' :: choice.variant.toList)) ++ ['\x7d'] := by
      simp [Segment.chars, VariantChoice.chars]
    rw [hends, List.getLast?_concat]
    simp

/-- Segments behind another one have a slash in front, unless that one ends in a choice. -/
theorem text_of_segments_false {segments : List Segment} (h : segments ≠ []) :
    textOfSegments false segments = "/" ++ textOfSegments true segments := by
  cases segments with
  | nil => exact absurd rfl h
  | cons segment rest => simp [textOfSegments, String.append_assoc]

theorem text_of_segments_cons (segment : Segment) (rest : List Segment) :
    (textOfSegments true (segment :: rest)).toList =
      segment.chars ++ (textOfSegments (!segment.choices.isEmpty) rest).toList := by
  simp [textOfSegments, toList_text_of_segment]

theorem SpellsSegments.ne_nil {chars : List Char} {segments : List Segment}
    (h : SpellsSegments chars segments) : segments ≠ [] := by
  cases h <;> exact List.cons_ne_nil _ _

/-- The text of segments is what characters that spell them become without slashes behind
choices. -/
theorem SpellsSegments.drop_slashes {chars : List Char} {segments : List Segment}
    (h : SpellsSegments chars segments) :
    dropSlashes chars = (textOfSegments true segments).toList := by
  induction h with
  | @last segment hsegment =>
      have hkeep := drop_slashes_append _ [] (slash_not_mem_chars hsegment)
        fun _ => nofun
      rw [List.append_nil] at hkeep
      rw [hkeep, text_of_segments_cons]
      rfl
  | @slash segment chars rest hsegment hrest ih =>
      rw [text_of_segments_cons]
      by_cases hchoices : segment.choices = []
      · have hkeep := drop_slashes_append _ ('/' :: chars) (slash_not_mem_chars hsegment)
          fun hlast => absurd hchoices ((get_last_chars_iff hsegment).mp hlast)
        rw [hkeep, drop_slashes_cons fun hslash => absurd hslash (by decide), ih]
        simp [hchoices, text_of_segments_false hrest.ne_nil]
      · -- the slash stands behind the brace that ends the segment
        obtain ⟨front, hfront⟩ := List.getLast?_eq_some_iff.mp
          ((get_last_chars_iff hsegment).mpr hchoices)
        have hkeep := drop_slashes_append front ('\x7d' :: '/' :: chars)
          (fun hslash => slash_not_mem_chars hsegment (by simp [hfront, hslash])) (by simp)
        have hchars : segment.chars ++ '/' :: chars = front ++ '\x7d' :: '/' :: chars := by
          simp [hfront]
        have hbehind : (!segment.choices.isEmpty) = true := by simpa using hchoices
        rw [hchars, hkeep, dropSlashes, ih, hbehind, hfront, List.append_assoc]
        rfl
  | @afterChoice segment chars rest hsegment hchoices hrest ih =>
      obtain ⟨first, others, hchars, hfirst⟩ := hrest.exists_eq_cons
      have hkeep := drop_slashes_append _ chars (slash_not_mem_chars hsegment) (by
        rintro - hslash
        rw [hchars, List.head?_cons, Option.some.injEq] at hslash
        exact absurd (hslash ▸ hfirst) (by decide))
      have hbehind : (!segment.choices.isEmpty) = true := by simpa using hchoices
      rw [hkeep, ih, text_of_segments_cons, hbehind]

/-- The text of a path is what every spelling of it becomes without slashes behind choices. -/
theorem text_of_spells {chars : List Char} {path : PrimPath} (h : Spells chars path) :
    path.text.toList = dropSlashes chars := by
  cases h with
  | root => rfl
  | @prim chars segments hsegments =>
      have hroot : (PrimPath.mk segments).isRoot = false := by
        simpa [isRoot] using hsegments.ne_nil
      rw [drop_slashes_cons fun hslash => absurd hslash (by decide), hsegments.drop_slashes, text,
        hroot]
      simp [text_of_segments_false hsegments.ne_nil]

/-- The reader takes exactly the texts of the grammar, with the names and choices that they spell
and no others. It takes back what is printed, for paths of prims and of properties, so that paths
with proper names are told apart by their texts; and what it has taken is printed without the
slashes behind choices. -/
theorem texts_read_and_printed :
    (∀ text path, parse text = .ok path ↔ Spells text.toList path) ∧
      (∀ path : PrimPath, path.Spellable → parse path.text = .ok path) ∧
      (∀ text path, parse text = .ok path → path.text.toList = dropSlashes text.toList) ∧
      (∀ first second : PrimPath, first.Spellable → second.Spellable → first.text = second.text →
        first = second) ∧
      ∀ path : PropertyPath, path.Spellable → PropertyPath.parse path.text = .ok path := by
  refine ⟨fun _ _ => parse_eq_ok_iff, fun _ => parse_text, ?_, ?_, fun _ => PropertyPath.parse_text⟩
  · intro text path h
    exact text_of_spells (parse_eq_ok_iff.mp h)
  · intro first second hfirst hsecond htext
    have hread := parse_text hfirst
    rw [htext, parse_text hsecond] at hread
    exact (Except.ok.inj hread).symm

/-- A prim within a variant of the prim above it. -/
def shaderInLook : PrimPath := ⟨[⟨"M", [⟨"look", "a"⟩]⟩, .plain "S"]⟩

/-- Read with a slash behind the choice, it is printed without, and read again from that text. -/
theorem shader_in_look_read_and_printed :
    parse "/M\x7blook=a\x7d/S" = .ok shaderInLook ∧
      shaderInLook.text.toList = dropSlashes "/M\x7blook=a\x7d/S".toList ∧
      shaderInLook.text = "/M\x7blook=a\x7dS" ∧ parse shaderInLook.text = .ok shaderInLook := by
  have hread : parse "/M\x7blook=a\x7d/S" = .ok shaderInLook := rfl
  exact ⟨hread, texts_read_and_printed.2.2.1 _ _ hread, by decide,
    texts_read_and_printed.2.1 _ (spellable_of_parse hread)⟩

end PrimPath

end LayeredShading
