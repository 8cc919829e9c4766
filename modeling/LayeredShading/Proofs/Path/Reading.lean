import LayeredShading.Path.Property
import LayeredShading.Proofs.Path.Placement

/-!
# Reading paths back

A path whose names are names (`PrimPath.Spellable`) has one text: the reader takes it, segment by
segment and choice by choice, and gives the path back (`PrimPath.parse_text`), although it would
take slashes after choices as well. What the reader gives is spellable
(`PrimPath.spellable_of_parse`), and both hold of property paths too.
-/

namespace LayeredShading

/-! ## Names -/

/-- The names of a choice are names. -/
structure VariantChoice.Spellable (choice : VariantChoice) : Prop where
  set : isPrimName choice.set = true
  variant : isPrimName choice.variant = true

/-- The names of a segment are names. -/
structure Segment.Spellable (segment : Segment) : Prop where
  name : isPrimName segment.name = true
  choices : ∀ choice ∈ segment.choices, choice.Spellable

/-- The names on a path are names. -/
def PrimPath.Spellable (path : PrimPath) : Prop := ∀ segment ∈ path.segments, segment.Spellable

/-- A property path belongs to a prim, and its names are names. -/
structure PropertyPath.Spellable (path : PropertyPath) : Prop where
  prim : path.prim.Spellable
  not_root : path.prim.isRoot = false
  name : isPropertyName path.name = true

theorem Segment.spellable_plain {name : String} (h : isPrimName name = true) :
    (Segment.plain name).Spellable :=
  ⟨h, nofun⟩

namespace PrimPath

variable {path : PrimPath}

/-- The paths of the prims on the way to a spellable path are spellable. -/
theorem Spellable.of_mem_ancestry (h : path.Spellable) {above : PrimPath}
    (habove : above ∈ path.ancestry) : above.Spellable := by
  obtain ⟨-, rest, rfl⟩ := mem_ancestry_iff.mp habove
  exact fun segment hsegment => h segment (List.mem_append_left _ hsegment)

/-- A path stays spellable if a choice is made on it. -/
theorem Spellable.choose (h : path.Spellable) {choice : VariantChoice} (hchoice : choice.Spellable)
    (depth : Nat) : (path.choose depth choice).Spellable := by
  cases depth with
  | zero => exact h
  | succ index =>
      intro segment hsegment
      obtain ⟨place, hplace, rfl⟩ := List.mem_iff_getElem.mp hsegment
      simp only [PrimPath.choose, List.getElem_modify]
      have hown := h _ (List.getElem_mem (by simpa [PrimPath.choose] using hplace))
      split
      next =>
        refine ⟨hown.name, fun other hother => ?_⟩
        rcases List.mem_append.mp hother with hother | hother
        · exact hown.choices other hother
        · exact List.mem_singleton.mp hother ▸ hchoice
      next => exact hown

/-- The prim of a spellable path has a name. -/
theorem Spellable.exists_name (h : path.Spellable) (hroot : path.isRoot = false) :
    ∃ name, path.name? = some name ∧ isPrimName name = true := by
  have hne : path.segments ≠ [] := by simpa [isRoot] using hroot
  refine ⟨(path.segments.getLast hne).name, ?_, (h _ (List.getLast_mem hne)).name⟩
  rw [name?, List.getLast?_eq_some_getLast hne, Option.map_some]

end PrimPath

/-- A name starts with a character of a name that is no digit and goes on with such characters. -/
theorem is_prim_name_iff {name : String} :
    isPrimName name = true ↔ ∃ first rest, name.toList = first :: rest ∧
      isNameChar first = true ∧ first.isDigit = false ∧ ∀ char ∈ rest, isNameChar char = true := by
  rw [isPrimName]
  cases name.toList with
  | nil => simp
  | cons first rest => simp [and_assoc]

theorem name_char_of_mem {name : String} (h : isPrimName name = true) {char : Char}
    (hchar : char ∈ name.toList) : isNameChar char = true := by
  obtain ⟨first, rest, hlist, hfirst, -, hrest⟩ := is_prim_name_iff.mp h
  rw [hlist] at hchar
  rcases List.mem_cons.mp hchar with rfl | hchar
  · exact hfirst
  · exact hrest char hchar

/-- A name may be cut off behind any of its characters. -/
theorem is_prim_name_of_append {before after : List Char} (hne : before ≠ [])
    (h : isPrimName (String.ofList (before ++ after)) = true) :
    isPrimName (String.ofList before) = true := by
  obtain ⟨first, rest, hlist, hfirst, hdigit, hrest⟩ := is_prim_name_iff.mp h
  cases before with
  | nil => exact absurd rfl hne
  | cons head tail =>
      simp only [String.toList_ofList, List.cons_append, List.cons.injEq] at hlist
      obtain ⟨rfl, rfl⟩ := hlist
      exact is_prim_name_iff.mpr ⟨head, tail, String.toList_ofList, hfirst, hdigit,
        fun char hchar => hrest char (List.mem_append_left _ hchar)⟩

namespace PrimPath

/-! ## Reading a name -/

namespace Scan

/-- Reading characters leads from one state of the reader to another. -/
def Reads (scan : Scan) (chars : List Char) (later : Scan) : Prop :=
  chars.foldlM next? scan = some later

variable {scan between later : Scan} {char : Char} {chars others : List Char}

theorem Reads.nil : scan.Reads [] scan := rfl

theorem Reads.cons (hnext : scan.next? char = some between) (h : between.Reads chars later) :
    scan.Reads (char :: chars) later := by
  rw [Reads, List.foldlM_cons, hnext]
  exact h

theorem Reads.append (h : scan.Reads chars between) (hothers : between.Reads others later) :
    scan.Reads (chars ++ others) later := by
  rw [Reads, List.foldlM_append, show chars.foldlM next? scan = some between from h]
  exact hothers

end Scan

theorem continue_name_eq_some_iff {name continued : String} {char : Char} :
    continueName name char = some continued ↔
      name.push char = continued ∧ isPrimName continued = true := by
  rw [continueName]
  split
  next h => simp only [Option.some.injEq]; exact ⟨fun hsame => ⟨hsame, hsame ▸ h⟩, And.left⟩
  next h => simp only [reduceCtorEq, false_iff]; rintro ⟨rfl, hname⟩; exact h hname

/-- The rest of a name is read where each of its characters continues the name. -/
theorem reads_rest_of_name {reads : String → Scan}
    (hreads : ∀ name char, isNameChar char = true →
      (reads name).next? char = (continueName name char).map reads)
    {before rest : List Char} (hne : before ≠ [])
    (h : isPrimName (String.ofList (before ++ rest)) = true) :
    (reads (String.ofList before)).Reads rest (reads (String.ofList (before ++ rest))) := by
  induction rest generalizing before with
  | nil =>
      rw [List.append_nil]
      exact .nil
  | cons char rest ih =>
      have hmore : isPrimName (String.ofList ((before ++ [char]) ++ rest)) = true := by
        simpa using h
      have hpush : (String.ofList before).push char = String.ofList (before ++ [char]) :=
        String.toList_inj.mp (by simp)
      have hcontinue : continueName (String.ofList before) char =
          some (String.ofList (before ++ [char])) :=
        continue_name_eq_some_iff.mpr ⟨hpush, is_prim_name_of_append (by simp) hmore⟩
      refine .cons (by rw [hreads _ _ (name_char_of_mem h (by simp)), hcontinue]; rfl) ?_
      simpa using ih (by simp) hmore

/-- A name is read from where its first character starts it. -/
theorem reads_name {start : Scan} {reads : String → Scan}
    (hstart : ∀ char, isNameChar char = true → start.next? char = (continueName "" char).map reads)
    (hreads : ∀ name char, isNameChar char = true →
      (reads name).next? char = (continueName name char).map reads)
    {name : String} (h : isPrimName name = true) : start.Reads name.toList (reads name) := by
  obtain ⟨first, rest, hlist, hfirst, -, -⟩ := is_prim_name_iff.mp h
  have hname : name = String.ofList ([first] ++ rest) :=
    String.toList_inj.mp (by simpa using hlist)
  have hcontinue : continueName "" first = some (String.ofList [first]) :=
    continue_name_eq_some_iff.mpr
      ⟨String.toList_inj.mp (by simp), is_prim_name_of_append (by simp) (hname ▸ h)⟩
  rw [hlist]
  refine .cons (by rw [hstart _ hfirst, hcontinue]; rfl) ?_
  rw [hname]
  exact reads_rest_of_name hreads (by simp) (hname ▸ h)

/-! ## Reading a segment -/

/-- Where the reader stands at the end of a segment. -/
def Scan.atEndOf (finished : List Segment) (segment : Segment) : Scan :=
  if segment.choices.isEmpty then .inName finished segment.name
  else .afterChoice finished segment

theorem Scan.finish_at_end_of (finished : List Segment) (segment : Segment) :
    (atEndOf finished segment).finish? = some (finished ++ [segment]) := by
  obtain ⟨name, choices⟩ := segment
  cases choices <;> rfl

/-- The name that the next character may go on with. -/
def Scan.openName : Scan → String
  | .inName _ name => name
  | .inSet _ _ set => set
  | .inVariant _ _ _ variant => variant
  | .afterSlash _ | .afterChoice _ _ => ""

/-- Where the reader stands when the name it is in is another one. -/
def Scan.withName : Scan → String → Scan
  | .afterSlash finished, name | .inName finished _, name => .inName finished name
  | .inSet finished segment _, set => .inSet finished segment set
  | .inVariant finished segment set _, variant => .inVariant finished segment set variant
  | .afterChoice finished segment, name => .inName (finished ++ [segment]) name

/-- Wherever the reader stands, a character of names goes on with the name there. -/
theorem next_of_name_char (scan : Scan) {char : Char} (h : isNameChar char = true) :
    scan.next? char = (continueName scan.openName char).map scan.withName := by
  have hslash : char ≠ '/' := by rintro rfl; exact absurd h (by decide)
  have hopen : char ≠ '\x7b' := by rintro rfl; exact absurd h (by decide)
  have hclose : char ≠ '\x7d' := by rintro rfl; exact absurd h (by decide)
  have hequals : char ≠ '=' := by rintro rfl; exact absurd h (by decide)
  -- so in every place the reader takes the branch for all other characters
  cases scan <;> simp only [Scan.next?] <;> rfl

theorem is_empty_eq_false {name : String} (h : isPrimName name = true) : name.isEmpty = false := by
  obtain ⟨first, rest, hlist, -⟩ := is_prim_name_iff.mp h
  rw [Bool.eq_false_iff, ne_eq, String.isEmpty_iff]
  rintro rfl
  cases hlist

/-- A choice is read at the end of a segment. -/
theorem reads_choice (finished : List Segment) (segment : Segment) {choice : VariantChoice}
    (h : choice.Spellable) :
    (Scan.atEndOf finished segment).Reads choice.text.toList
      (.atEndOf finished { segment with choices := segment.choices ++ [choice] }) := by
  have hopen : (Scan.atEndOf finished segment).next? '\x7b' =
      some (.inSet finished segment "") := by
    obtain ⟨name, choices⟩ := segment
    cases choices <;> rfl
  have hset : (Scan.inSet finished segment "").Reads choice.set.toList
      (.inSet finished segment choice.set) :=
    reads_name (fun _ => next_of_name_char (.inSet finished segment ""))
      (fun name _ => next_of_name_char (.inSet finished segment name)) h.set
  have hequals : (Scan.inSet finished segment choice.set).next? '=' =
      some (.inVariant finished segment choice.set "") :=
    if_neg (by simp [is_empty_eq_false h.set])
  have hvariant : (Scan.inVariant finished segment choice.set "").Reads choice.variant.toList
      (.inVariant finished segment choice.set choice.variant) :=
    reads_name (fun _ => next_of_name_char (.inVariant finished segment choice.set ""))
      (fun variant _ => next_of_name_char (.inVariant finished segment choice.set variant))
      h.variant
  have hclose : (Scan.inVariant finished segment choice.set choice.variant).next? '\x7d' =
      some (.atEndOf finished { segment with choices := segment.choices ++ [choice] }) := by
    refine (if_neg (by simp [is_empty_eq_false h.variant])).trans ?_
    simp [Scan.atEndOf]
  have htext : choice.text.toList =
      '\x7b' :: (choice.set.toList ++ '=' :: (choice.variant.toList ++ ['\x7d'])) := by
    simp [VariantChoice.text]
  rw [htext]
  exact .cons hopen (.append hset (.cons hequals (.append hvariant (.cons hclose .nil))))

/-- A segment is read from where its name starts. -/
theorem reads_segment {start : Scan} {finished : List Segment} {segment : Segment}
    (hstart : ∀ char, isNameChar char = true →
      start.next? char = (continueName "" char).map (.inName finished))
    (h : segment.Spellable) : start.Reads segment.text.toList (.atEndOf finished segment) := by
  have hname : start.Reads segment.name.toList (.atEndOf finished ⟨segment.name, []⟩) :=
    reads_name hstart (fun name _ => next_of_name_char (.inName finished name)) h.name
  have hchoices : ∀ (rest before : List VariantChoice), (∀ choice ∈ rest, choice.Spellable) →
      (Scan.atEndOf finished ⟨segment.name, before⟩).Reads
        (String.join (rest.map VariantChoice.text)).toList
        (.atEndOf finished ⟨segment.name, before ++ rest⟩) := by
    intro rest
    induction rest with
    | nil =>
        intro before _
        rw [List.append_nil]
        exact .nil
    | cons choice rest ih =>
        intro before hrest
        have hread := reads_choice finished ⟨segment.name, before⟩ (hrest choice List.mem_cons_self)
        have hmore := ih (before ++ [choice]) fun other hother =>
          hrest other (List.mem_cons_of_mem _ hother)
        simpa [String.toList_join] using hread.append hmore
  have htext : segment.text.toList =
      segment.name.toList ++ (String.join (segment.choices.map VariantChoice.text)).toList := by
    simp [Segment.text]
  rw [htext]
  exact hname.append (hchoices segment.choices [] h.choices)

/-! ## Reading a path -/

/-- Further segments are read at the end of a segment, each behind a slash unless it follows a
choice. -/
theorem reads_segments (finished : List Segment) (segment : Segment) {rest : List Segment}
    (h : ∀ other ∈ rest, other.Spellable) :
    ∃ later, (Scan.atEndOf finished segment).Reads
        (textOfSegments (!segment.choices.isEmpty) rest).toList later ∧
      later.finish? = some (finished ++ segment :: rest) := by
  induction rest generalizing finished segment with
  | nil => exact ⟨_, .nil, Scan.finish_at_end_of finished segment⟩
  | cons next rest ih =>
      obtain ⟨later, hlater, hfinish⟩ := ih (finished ++ [segment]) next
        fun other hother => h other (List.mem_cons_of_mem _ hother)
      have hnamed := h next List.mem_cons_self
      have hnext : (Scan.atEndOf finished segment).Reads
          ((if !segment.choices.isEmpty then "" else "/") ++ next.text).toList
          (.atEndOf (finished ++ [segment]) next) := by
        obtain ⟨name, choices⟩ := segment
        cases choices with
        | nil =>
            have hread : (Scan.afterSlash (finished ++ [.plain name])).Reads next.text.toList
                (.atEndOf (finished ++ [.plain name]) next) :=
              reads_segment (fun _ _ => rfl) hnamed
            have htext : ((if !([] : List VariantChoice).isEmpty then "" else "/") ++
                next.text).toList = '/' :: next.text.toList := by simp
            rw [htext]
            exact .cons rfl hread
        | cons choice choices =>
            have hread := reads_segment
              (fun _ => next_of_name_char (.afterChoice finished ⟨name, choice :: choices⟩)) hnamed
            simpa [Scan.atEndOf] using hread
      refine ⟨later, ?_, by simpa using hfinish⟩
      rw [textOfSegments, String.toList_append]
      exact hnext.append hlater

/-- The text of a spellable path is read as the path. -/
theorem parse_text {path : PrimPath} (h : path.Spellable) : parse path.text = .ok path := by
  suffices hread : ofChars? path.text.toList = some path by rw [parse, hread]
  obtain ⟨segments⟩ := path
  cases segments with
  | nil => rfl
  | cons segment rest =>
      have hnamed := h segment List.mem_cons_self
      obtain ⟨later, hlater, hfinish⟩ := reads_segments [] segment
        fun other hother => h other (List.mem_cons_of_mem _ hother)
      have hread : (Scan.afterSlash []).Reads
          (segment.text ++ textOfSegments (!segment.choices.isEmpty) rest).toList later := by
        rw [String.toList_append]
        exact (reads_segment (fun _ _ => rfl) hnamed).append hlater
      have htext : (PrimPath.mk (segment :: rest)).text.toList =
          '/' :: (segment.text ++ textOfSegments (!segment.choices.isEmpty) rest).toList := by
        simp [text, isRoot, textOfSegments]
      obtain ⟨first, others, hfirst, -⟩ := is_prim_name_iff.mp hnamed.name
      -- The text goes on after the slash, so it is not that of the root.
      have hopen :
          (segment.text ++ textOfSegments (!segment.choices.isEmpty) rest).toList ≠ [] := by
        simp [Segment.text, hfirst]
      rw [Scan.Reads] at hread
      rw [htext, ofChars?, hread]
      · simp [hfinish]
      · simpa using hopen

/-! ## What the reader gives -/

/-- The segments that the reader has finished are spellable. -/
def Finished (segments : List Segment) : Prop := ∀ segment ∈ segments, segment.Spellable

theorem Finished.append {segments : List Segment} (h : Finished segments) {segment : Segment}
    (hsegment : segment.Spellable) : Finished (segments ++ [segment]) := by
  intro other hother
  rcases List.mem_append.mp hother with hother | hother
  · exact h other hother
  · obtain rfl := List.mem_singleton.mp hother
    exact hsegment

/-- All that the reader has read is spellable, a set or variant perhaps not begun. -/
def Scan.Sound : Scan → Prop
  | .afterSlash finished => Finished finished
  | .inName finished name => Finished finished ∧ isPrimName name = true
  | .inSet finished segment set =>
    Finished finished ∧ segment.Spellable ∧ (set.isEmpty = false → isPrimName set = true)
  | .inVariant finished segment set variant =>
    Finished finished ∧ segment.Spellable ∧ isPrimName set = true ∧
      (variant.isEmpty = false → isPrimName variant = true)
  | .afterChoice finished segment => Finished finished ∧ segment.Spellable

/-- `Step scan char later` says that the reader goes on from one state to another with a
character. -/
inductive Scan.Step : Scan → Char → Scan → Prop where
  | startName {finished char name} : continueName "" char = some name →
      Step (.afterSlash finished) char (.inName finished name)
  | name {finished name char continued} : continueName name char = some continued →
      Step (.inName finished name) char (.inName finished continued)
  | slashAfterName {finished name} :
      Step (.inName finished name) '/' (.afterSlash (finished ++ [.plain name]))
  | openAfterName {finished name} :
      Step (.inName finished name) '\x7b' (.inSet finished (.plain name) "")
  | set {finished segment set char continued} : continueName set char = some continued →
      Step (.inSet finished segment set) char (.inSet finished segment continued)
  | equals {finished segment set} : set.isEmpty = false →
      Step (.inSet finished segment set) '=' (.inVariant finished segment set "")
  | variant {finished segment set variant char continued} :
      continueName variant char = some continued →
      Step (.inVariant finished segment set variant) char (.inVariant finished segment set continued)
  | close {finished segment set variant} : variant.isEmpty = false →
      Step (.inVariant finished segment set variant) '\x7d'
        (.afterChoice finished { segment with choices := segment.choices ++ [⟨set, variant⟩] })
  | slashAfterChoice {finished segment} :
      Step (.afterChoice finished segment) '/' (.afterSlash (finished ++ [segment]))
  | openAfterChoice {finished segment} :
      Step (.afterChoice finished segment) '\x7b' (.inSet finished segment "")
  | nameAfterChoice {finished segment char name} : continueName "" char = some name →
      Step (.afterChoice finished segment) char (.inName (finished ++ [segment]) name)

/-- The reader goes on in no other way. -/
theorem Scan.step_of_next {scan later : Scan} {char : Char} (h : scan.next? char = some later) :
    scan.Step char later := by
  cases scan with
  | afterSlash finished =>
      obtain ⟨name, hname, rfl⟩ := Option.map_eq_some_iff.mp h
      exact .startName hname
  | inName finished name =>
      simp only [next?] at h
      split at h
      next => cases h; exact .slashAfterName
      next => cases h; exact .openAfterName
      next =>
        obtain ⟨continued, hcontinue, rfl⟩ := Option.map_eq_some_iff.mp h
        exact .name hcontinue
  | inSet finished segment set =>
      simp only [next?] at h
      split at h
      next =>
        split at h
        next => cases h
        next hset => cases h; exact .equals (Bool.eq_false_iff.mpr hset)
      next =>
        obtain ⟨continued, hcontinue, rfl⟩ := Option.map_eq_some_iff.mp h
        exact .set hcontinue
  | inVariant finished segment set variant =>
      simp only [next?] at h
      split at h
      next =>
        split at h
        next => cases h
        next hvariant => cases h; exact .close (Bool.eq_false_iff.mpr hvariant)
      next =>
        obtain ⟨continued, hcontinue, rfl⟩ := Option.map_eq_some_iff.mp h
        exact .variant hcontinue
  | afterChoice finished segment =>
      simp only [next?] at h
      split at h
      next => cases h; exact .slashAfterChoice
      next => cases h; exact .openAfterChoice
      next =>
        obtain ⟨name, hname, rfl⟩ := Option.map_eq_some_iff.mp h
        exact .nameAfterChoice hname

/-- Reading one more character keeps what has been read spellable. -/
theorem Scan.Sound.next {scan later : Scan} {char : Char} (h : scan.Sound)
    (hnext : scan.next? char = some later) : later.Sound := by
  have hname : ∀ {name continued : String}, continueName name char = some continued →
      isPrimName continued = true := fun hcontinue => (continue_name_eq_some_iff.mp hcontinue).2
  cases step_of_next hnext with
  | startName hcontinue => exact ⟨h, hname hcontinue⟩
  | name hcontinue => exact ⟨h.1, hname hcontinue⟩
  | slashAfterName => exact h.1.append (Segment.spellable_plain h.2)
  | openAfterName => exact ⟨h.1, Segment.spellable_plain h.2, nofun⟩
  | set hcontinue => exact ⟨h.1, h.2.1, fun _ => hname hcontinue⟩
  | equals hset => exact ⟨h.1, h.2.1, h.2.2 hset, nofun⟩
  | variant hcontinue => exact ⟨h.1, h.2.1, h.2.2.1, fun _ => hname hcontinue⟩
  | close hvariant =>
      obtain ⟨hfinished, hsegment, hset, hopen⟩ := h
      refine ⟨hfinished, hsegment.name, fun choice hchoice => ?_⟩
      rcases List.mem_append.mp hchoice with hchoice | hchoice
      · exact hsegment.choices choice hchoice
      · obtain rfl := List.mem_singleton.mp hchoice
        exact ⟨hset, hopen hvariant⟩
  | slashAfterChoice => exact h.1.append h.2
  | openAfterChoice => exact ⟨h.1, h.2, nofun⟩
  | nameAfterChoice hcontinue => exact ⟨h.1.append h.2, hname hcontinue⟩

theorem Scan.Sound.reads {scan later : Scan} {chars : List Char} (h : scan.Sound)
    (hreads : scan.Reads chars later) : later.Sound := by
  induction chars generalizing scan with
  | nil =>
      obtain rfl : scan = later := Option.some.inj hreads
      exact h
  | cons char rest ih =>
      rw [Reads, List.foldlM_cons] at hreads
      obtain ⟨between, hnext, hrest⟩ := Option.bind_eq_some_iff.mp hreads
      exact ih (h.next hnext) hrest

theorem Scan.Sound.finish {scan : Scan} {segments : List Segment} (h : scan.Sound)
    (hfinish : scan.finish? = some segments) : Finished segments := by
  cases scan with
  | inName finished name =>
      cases hfinish
      exact h.1.append (Segment.spellable_plain h.2)
  | afterChoice finished segment =>
      cases hfinish
      exact h.1.append h.2
  | _ => cases hfinish

/-- A path that is read is spellable. -/
theorem spellable_of_parse {text : String} {path : PrimPath} (h : parse text = .ok path) :
    path.Spellable := by
  have hread : ofChars? text.toList = some path := by
    rw [parse] at h
    cases hchars : ofChars? text.toList with
    | none => simp [hchars] at h
    | some found => simpa [hchars] using h
  unfold ofChars? at hread
  split at hread
  next =>
    cases hread
    exact nofun
  next =>
    obtain ⟨scan, hscan, hfinish⟩ := Option.bind_eq_some_iff.mp hread
    obtain ⟨segments, hsegments, hpath⟩ := Option.bind_eq_some_iff.mp hfinish
    obtain rfl : PrimPath.mk segments = path := Option.some.inj hpath
    have hstart : (Scan.afterSlash []).Sound := nofun
    exact (hstart.reads hscan).finish hsegments
  next => cases hread

end PrimPath

/-! ## Property paths -/

namespace PropertyPath

/-- The name of a property contains no dot. -/
theorem dot_not_mem_of_is_property_name {name : String} (h : isPropertyName name = true) :
    '.' ∉ name.toList := by
  have hcontinues : ∀ (chars : List Char) fresh, continuesPropertyName fresh chars = true →
      '.' ∉ chars := by
    intro chars
    induction chars with
    | nil => exact fun _ _ => List.not_mem_nil
    | cons char rest ih =>
        intro fresh hchars
        rw [List.mem_cons, not_or]
        unfold continuesPropertyName at hchars
        split at hchars
        next hnil => cases hnil
        next hcons =>
          obtain ⟨rfl, rfl⟩ := List.cons.inj hcons
          exact ⟨by decide, ih true (Bool.and_eq_true_iff.mp hchars).2⟩
        next hcons =>
          obtain ⟨rfl, rfl⟩ := List.cons.inj hcons
          obtain ⟨hchar, hrest⟩ := Bool.and_eq_true_iff.mp hchars
          exact ⟨fun hdot => absurd (hdot ▸ hchar) (by decide), ih false hrest⟩
  exact hcontinues name.toList true h

/-- The text of a spellable property path is read as the path. -/
theorem parse_text {path : PropertyPath} (h : path.Spellable) : parse path.text = .ok path := by
  have hsplit : Text.splitAtLast? '.' path.text = some (path.prim.text, path.name) := by
    rw [Text.splitAtLast?, Text.splitCharsAtLast?_eq_some_iff.mpr
      ⟨show path.text.toList = path.prim.text.toList ++ '.' :: path.name.toList by simp [text],
        dot_not_mem_of_is_property_name h.name⟩]
    simp
  rw [parse, hsplit]
  show (PrimPath.parse path.prim.text >>= fun prim => prim.property path.name) = .ok path
  rw [PrimPath.parse_text h.prim]
  show path.prim.property path.name = .ok path
  rw [PrimPath.property, h.not_root, h.name]
  rfl

/-- A property path that is read is spellable. -/
theorem spellable_of_parse {text : String} {path : PropertyPath} (h : parse text = .ok path) :
    path.Spellable := by
  unfold parse at h
  split at h
  next => cases h
  next prim name _ =>
    cases hprim : PrimPath.parse prim with
    | error error =>
        rw [hprim] at h
        cases h
    | ok found =>
        rw [hprim] at h
        have hproperty : found.property name = .ok path := h
        rw [PrimPath.property] at hproperty
        split at hproperty
        next => cases hproperty
        next hproper =>
          cases hproperty
          simp only [Bool.or_eq_true, Bool.not_eq_true', not_or, Bool.not_eq_true,
            Bool.not_eq_false] at hproper
          exact ⟨PrimPath.spellable_of_parse hprim, hproper.1, hproper.2⟩

end PropertyPath

end LayeredShading
