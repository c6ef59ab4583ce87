import SourceIndex.Proofs.Compile.Arguments
import SourceIndex.Proofs.Path.Joined

/-!
# Arguments in normal form

The arguments of a command are read in pieces: one argument, or a flag with the argument behind
it.  `RawCommand.Reads` says which pieces a list of arguments is read as, without a word about
the order in which tests are made.  Every list has such a reading (`RawCommand.exists_reads`), and
the normal form is made piece by piece (`RawCommand.Reads.normalizeArguments_eq`): some pieces are
dropped, directories are made absolute, and the rest stays.

That pieces are dropped brings others together.  `RawCommand.Reads.tidy` says that the pieces left
are still a reading, so nothing is read in a new way.  From this it follows for an absolute
directory that a normal form is its own normal form, and that it is clean
(`RawCommand.IsClean`): what would be dropped can only be there as the directory behind a flag.
-/

namespace SourceIndex

namespace DirSort

theorem read?_append (sort : DirSort) (dir : String) :
    read? (sort.flag ++ dir) = some (sort, dir) :=
  read?_eq_some_iff.mpr rfl

/-- A flag and what is joined to it can be told apart. -/
theorem append_inj {sort other : DirSort} {dir value : String}
    (hsame : sort.flag ++ dir = other.flag ++ value) : sort = other ∧ dir = value := by
  have hread := read?_append sort dir
  rw [hsame, read?_append] at hread
  cases hread
  exact ⟨rfl, rfl⟩

theorem eq_empty_of_append_eq_flag {sort other : DirSort} {dir : String}
    (hflag : sort.flag ++ dir = other.flag) : dir = "" := by
  rw [← String.append_empty (s := other.flag)] at hflag
  exact (append_inj hflag).2

theorem ne_append_of_read?_eq_none {argument : String} (hread : read? argument = none)
    (sort : DirSort) (value : String) : sort.flag ++ value ≠ argument := by
  rintro rfl
  cases hread.symm.trans (read?_append sort value)

theorem ne_flag_of_read?_eq_none {argument : String} (hread : read? argument = none)
    (sort : DirSort) : argument ≠ sort.flag := by
  rintro rfl
  cases hread.symm.trans (read?_flag sort)

end DirSort

namespace RawCommand

/-! ## Pieces -/

/-- The arguments that have no place in a normal form. -/
inductive IsUnwanted (directory file : String) : String → Prop where
  | compile : IsUnwanted directory file "-c"
  | output : IsUnwanted directory file "-o"
  | joinedOutput {name : String} (hname : name ≠ "")
      (hother : ¬"-obj".toList <+: ("-o" ++ name).toList) :
      IsUnwanted directory file ("-o" ++ name)
  | source {spelling : String} (hdash : ¬"-".toList <+: spelling.toList)
      (hsame : Path.absolutize directory spelling = file) :
      IsUnwanted directory file spelling

/-- A piece of the arguments of a command.  The argument behind a flag can be missing. -/
inductive Piece where
  /-- One argument that is dropped. -/
  | unwanted (argument : String)
  /-- The flag `-o` and the name of the output. -/
  | output (name? : Option String)
  /-- An include flag and the directory behind it. -/
  | separate (sort : DirSort) (dir? : Option String)
  /-- An include flag with the directory joined to it. -/
  | joined (sort : DirSort) (dir : String)
  /-- Any other argument. -/
  | other (argument : String)
  deriving DecidableEq, Repr

namespace Piece

/-- The arguments that a piece is made of. -/
def words : Piece → List String
  | unwanted argument => [argument]
  | output name? => "-o" :: name?.toList
  | separate sort dir? => sort.flag :: dir?.toList
  | joined sort dir => [sort.flag ++ dir]
  | other argument => [argument]

/-- What a piece leaves in the normal form. -/
def normal (directory : String) : Piece → List String
  | unwanted _ => []
  | output _ => []
  | separate sort dir? => sort.flag :: (dir?.map (Path.absolutize directory)).toList
  | joined sort dir => [sort.flag ++ Path.absolutize directory dir]
  | other argument => [argument]

/-- Whether the argument behind the flag is missing. -/
def isCut : Piece → Bool
  | output name? => name?.isNone
  | separate _ dir? => dir?.isNone
  | unwanted _ | joined _ _ | other _ => false

/-- Whether a piece is what it is called. -/
def Fits (directory file : String) : Piece → Prop
  | unwanted argument => IsUnwanted directory file argument ∧ argument ≠ "-o"
  | output _ => True
  | separate _ _ => True
  | joined _ dir => dir ≠ ""
  | other argument => ¬IsUnwanted directory file argument ∧ DirSort.read? argument = none

end Piece

/-- The pieces that arguments are read as.  Only the last one can be cut. -/
inductive Reads (directory file : String) : List String → List Piece → Prop where
  | nil : Reads directory file [] []
  | last (piece : Piece) (hfits : piece.Fits directory file) (hcut : piece.isCut = true) :
      Reads directory file piece.words [piece]
  | cons (piece : Piece) {arguments : List String} {pieces : List Piece}
      (hfits : piece.Fits directory file) (hwhole : piece.isCut = false)
      (hrest : Reads directory file arguments pieces) :
      Reads directory file (piece.words ++ arguments) (piece :: pieces)

section
variable {directory file argument : String}

/-! ## One piece of the normal form -/

theorem not_startsWith_iff {start text : String} :
    Flag.startsWith start text = false ↔ ¬start.toList <+: text.toList := by
  rw [Flag.startsWith, ← Bool.not_eq_true, List.isPrefixOf_iff_prefix]

theorem isJoinedOutput_iff :
    isJoinedOutput argument = true ↔ ∃ name, name ≠ "" ∧
      ¬"-obj".toList <+: ("-o" ++ name).toList ∧ argument = "-o" ++ name := by
  have hsize (name : String) : 2 < ("-o" ++ name).utf8ByteSize ↔ name ≠ "" := by
    have houtput : "-o".utf8ByteSize = 2 := by decide
    rw [String.utf8ByteSize_append, houtput, ne_eq, ← String.utf8ByteSize_eq_zero_iff]
    omega
  constructor
  · intro hjoined
    simp only [isJoinedOutput, outputLookalikes, List.any_cons, List.any_nil, Bool.or_false,
      Bool.and_eq_true, decide_eq_true_eq, Bool.not_eq_true'] at hjoined
    obtain ⟨⟨hlong, hstart⟩, hother⟩ := hjoined
    obtain ⟨chars, hchars⟩ := List.isPrefixOf_iff_prefix.mp hstart
    obtain rfl : argument = "-o" ++ String.ofList chars := by
      simp [← String.toList_inj, ← hchars]
    exact ⟨_, (hsize _).mp hlong, not_startsWith_iff.mp hother, rfl⟩
  · rintro ⟨name, hname, hother, rfl⟩
    have hstart : Flag.startsWith "-o" ("-o" ++ name) = true := by simp [Flag.startsWith]
    simp only [isJoinedOutput, outputLookalikes, (hsize name).mpr hname, hstart,
      not_startsWith_iff.mpr hother, List.any_cons, List.any_nil]
    rfl

theorem isUnwanted_iff :
    IsUnwanted directory file argument ↔ argument = "-c" ∨ argument = "-o" ∨
      isJoinedOutput argument = true ∨
      Flag.startsWith "-" argument = false ∧ Path.absolutize directory argument = file := by
  rw [isJoinedOutput_iff, not_startsWith_iff]
  constructor
  · rintro (_ | _ | ⟨hname, hother⟩ | ⟨hdash, hsame⟩)
    · exact .inl rfl
    · exact .inr (.inl rfl)
    · exact .inr (.inr (.inl ⟨_, hname, hother, rfl⟩))
    · exact .inr (.inr (.inr ⟨hdash, hsame⟩))
  · rintro (rfl | rfl | ⟨name, hname, hother, rfl⟩ | ⟨hdash, hsame⟩)
    · exact .compile
    · exact .output
    · exact .joinedOutput hname hother
    · exact .source hdash hsame

/-- What is unwanted names no include directory. -/
theorem IsUnwanted.read?_eq_none (hunwanted : IsUnwanted directory file argument) :
    DirSort.read? argument = none := by
  cases hunwanted with
  | compile => decide
  | output => decide
  | joinedOutput => exact DirSort.read?_of_startsWith_output (by simp [Flag.startsWith])
  | source hdash => exact DirSort.read?_of_not_startsWith_dash (not_startsWith_iff.mpr hdash)

/-- An include flag is wanted, also with a directory joined to it. -/
theorem not_isUnwanted_append (sort : DirSort) (dir : String) :
    ¬IsUnwanted directory file (sort.flag ++ dir) := by
  intro hunwanted
  exact DirSort.ne_append_of_read?_eq_none hunwanted.read?_eq_none sort dir rfl

theorem not_isUnwanted_flag (sort : DirSort) : ¬IsUnwanted directory file sort.flag := by
  intro hunwanted
  exact DirSort.ne_flag_of_read?_eq_none hunwanted.read?_eq_none sort rfl

theorem normalizeArguments_of_isUnwanted (hunwanted : IsUnwanted directory file argument)
    (houtput : argument ≠ "-o") (rest : List String) :
    normalizeArguments directory file (argument :: rest) =
      normalizeArguments directory file rest := by
  have hflag : ¬(argument == "-I" || argument == "-iquote" || argument == "-isystem") = true := by
    intro hflag
    obtain ⟨sort, rfl⟩ := isFlag_iff.mp hflag
    exact not_isUnwanted_flag sort hunwanted
  rw [normalizeArguments.eq_def]
  obtain rfl | rfl | hjoined | ⟨hdash, hsame⟩ := isUnwanted_iff.mp hunwanted
  · rfl
  · exact absurd rfl houtput
  · simp [houtput, hflag, hjoined]
  · simp [houtput, hflag, hdash, hsame]

theorem normalizeArguments_of_wanted (hwanted : ¬IsUnwanted directory file argument)
    (hflag : ∀ sort : DirSort, argument ≠ sort.flag) (rest : List String) :
    normalizeArguments directory file (argument :: rest) =
      absolutizeJoined directory argument :: normalizeArguments directory file rest := by
  have halone : ¬(argument == "-I" || argument == "-iquote" || argument == "-isystem") = true := by
    intro halone
    obtain ⟨sort, hsort⟩ := isFlag_iff.mp halone
    exact hflag sort hsort
  rw [isUnwanted_iff] at hwanted
  push Not at hwanted
  obtain ⟨hcompile, houtput, hjoined, hsource⟩ := hwanted
  rw [normalizeArguments.eq_def]
  cases hdash : Flag.startsWith "-" argument with
  | true => simp [hcompile, houtput, halone, hjoined, hdash]
  | false => simp [hcompile, houtput, halone, hjoined, hdash, hsource hdash]

/-- A whole piece is brought into normal form by itself. -/
theorem normalizeArguments_append {piece : Piece} (hfits : piece.Fits directory file)
    (hwhole : piece.isCut = false) (rest : List String) :
    normalizeArguments directory file (piece.words ++ rest) =
      piece.normal directory ++ normalizeArguments directory file rest := by
  cases piece with
  | unwanted argument => exact normalizeArguments_of_isUnwanted hfits.1 hfits.2 rest
  | output name? =>
      cases name? with
      | none => cases hwhole
      | some name => simp [Piece.words, Piece.normal, normalizeArguments]
  | separate sort dir? =>
      cases dir? with
      | none => cases hwhole
      | some dir =>
          cases sort <;> simp [Piece.words, Piece.normal, DirSort.flag, normalizeArguments]
  | joined sort dir =>
      have hflag : ∀ other : DirSort, sort.flag ++ dir ≠ other.flag := by
        intro other hother
        exact hfits (DirSort.eq_empty_of_append_eq_flag hother)
      rw [Piece.words, List.singleton_append,
        normalizeArguments_of_wanted (not_isUnwanted_append sort dir) hflag,
        absolutizeJoined_flag hfits]
      rfl
  | other argument =>
      obtain ⟨hwanted, hread⟩ := hfits
      rw [Piece.words, List.singleton_append,
        normalizeArguments_of_wanted hwanted (DirSort.ne_flag_of_read?_eq_none hread),
        absolutizeJoined_of_read?_eq_none hread]
      rfl

/-- A piece that is cut is the end of the arguments. -/
theorem normalizeArguments_of_isCut {piece : Piece} (hcut : piece.isCut = true) :
    normalizeArguments directory file piece.words = piece.normal directory := by
  cases piece with
  | output name? =>
      cases name? with
      | none => simp [Piece.words, Piece.normal, normalizeArguments]
      | some name => cases hcut
  | separate sort dir? =>
      cases dir? with
      | none => cases sort <;> simp [Piece.words, Piece.normal, DirSort.flag, normalizeArguments]
      | some dir => cases hcut
  | unwanted | joined | other => cases hcut

/-! ## Readings -/

/-- Arguments are brought into normal form piece by piece. -/
theorem Reads.normalizeArguments_eq {arguments : List String} {pieces : List Piece}
    (hreads : Reads directory file arguments pieces) :
    normalizeArguments directory file arguments = pieces.flatMap (Piece.normal directory) := by
  induction hreads with
  | nil => rfl
  | last _ _ hcut => rw [normalizeArguments_of_isCut hcut, List.flatMap_singleton]
  | cons _ hfits hwhole _ ih => rw [normalizeArguments_append hfits hwhole, ih, List.flatMap_cons]

/-- All arguments can be read. -/
theorem exists_reads (directory file : String) :
    ∀ arguments, ∃ pieces, Reads directory file arguments pieces
  | [] => ⟨[], .nil⟩
  | argument :: rest => by
    by_cases houtput : argument = "-o"
    · subst houtput
      cases rest with
      | nil => exact ⟨_, .last (.output none) trivial rfl⟩
      | cons name rest =>
          obtain ⟨pieces, hpieces⟩ := exists_reads directory file rest
          exact ⟨_, .cons (.output (some name)) trivial rfl hpieces⟩
    obtain ⟨pieces, hpieces⟩ := exists_reads directory file rest
    by_cases hunwanted : IsUnwanted directory file argument
    · exact ⟨_, .cons (.unwanted argument) ⟨hunwanted, houtput⟩ rfl hpieces⟩
    cases hread : DirSort.read? argument with
    | none => exact ⟨_, .cons (.other argument) ⟨hunwanted, hread⟩ rfl hpieces⟩
    | some found =>
        obtain ⟨sort, dir⟩ := found
        obtain rfl := DirSort.read?_eq_some_iff.mp hread
        by_cases hdir : dir = ""
        · rw [hdir, String.append_empty]
          cases rest with
          | nil => exact ⟨_, .last (.separate sort none) trivial rfl⟩
          | cons dir rest =>
              obtain ⟨pieces, hpieces⟩ := exists_reads directory file rest
              exact ⟨_, .cons (.separate sort (some dir)) trivial rfl hpieces⟩
        · exact ⟨_, .cons (.joined sort dir) hdir rfl hpieces⟩

/-! ## What is left of a reading -/

/-- A directory that is the same from everywhere. -/
def IsPinned (dir : String) : Prop :=
  Path.isAbsolute dir = true ∧ Path.IsNormal dir

theorem isPinned_absolutize (hdirectory : Path.isAbsolute directory = true) (dir : String) :
    IsPinned (Path.absolutize directory dir) := by
  refine ⟨?_, Path.isNormal_absolutize directory dir⟩
  rw [Path.isAbsolute_absolutize, hdirectory, Bool.true_or]

namespace Piece

/-- The piece that a piece leaves in the normal form. -/
def tidy? (directory : String) : Piece → Option Piece
  | unwanted _ => none
  | output _ => none
  | separate sort dir? => some (separate sort (dir?.map (Path.absolutize directory)))
  | joined sort dir => some (joined sort (Path.absolutize directory dir))
  | other argument => some (other argument)

/-- A piece of a normal form. -/
def IsTidy : Piece → Prop
  | unwanted _ => False
  | output _ => False
  | separate _ dir? => ∀ dir ∈ dir?, IsPinned dir
  | joined _ dir => IsPinned dir
  | other _ => True

theorem normal_of_tidy?_eq_none {piece : Piece} (hdropped : piece.tidy? directory = none) :
    piece.normal directory = [] := by
  cases piece with
  | unwanted | output => rfl
  | separate | joined | other => cases hdropped

section
variable {piece kept : Piece}

theorem words_of_tidy? (hkept : piece.tidy? directory = some kept) :
    kept.words = piece.normal directory := by
  cases piece <;> cases hkept <;> rfl

theorem isCut_of_tidy? (hkept : piece.tidy? directory = some kept) :
    kept.isCut = piece.isCut := by
  cases piece <;> cases hkept <;> simp [isCut]

/-- What is left is still what it is called. -/
theorem Fits.of_tidy? (hdirectory : Path.isAbsolute directory = true)
    (hfits : piece.Fits directory file) (hkept : piece.tidy? directory = some kept) :
    kept.Fits directory file := by
  cases piece with
  | unwanted | output => cases hkept
  | separate => cases hkept; trivial
  | joined sort dir =>
      cases hkept
      intro hempty
      have habsolute := (isPinned_absolutize hdirectory dir).1
      rw [hempty] at habsolute
      cases habsolute
  | other => cases hkept; exact hfits

theorem isTidy_of_tidy? (hdirectory : Path.isAbsolute directory = true)
    (hkept : piece.tidy? directory = some kept) : kept.IsTidy := by
  cases piece with
  | unwanted | output => cases hkept
  | separate sort dir? =>
      cases hkept
      intro dir hdir
      obtain ⟨given, -, rfl⟩ := Option.map_eq_some_iff.mp hdir
      exact isPinned_absolutize hdirectory given
  | joined sort dir => cases hkept; exact isPinned_absolutize hdirectory dir
  | other => cases hkept; trivial

/-- A piece of a normal form is left as it is. -/
theorem normal_of_tidy? (hdirectory : Path.isAbsolute directory = true)
    (hkept : piece.tidy? directory = some kept) : kept.normal directory = kept.words := by
  have hsame (dir : String) :
      Path.absolutize directory (Path.absolutize directory dir) = Path.absolutize directory dir :=
    Path.absolutize_absolutize (isPinned_absolutize hdirectory dir).1 directory
  cases piece with
  | unwanted | output => cases hkept
  | separate sort dir? => cases hkept; cases dir? <;> simp [normal, words, hsame]
  | joined sort dir => cases hkept; simp [normal, words, hsame]
  | other => cases hkept; rfl

end
end Piece

/-- The pieces that are left are a reading of what is left. -/
theorem Reads.tidy (hdirectory : Path.isAbsolute directory = true) {arguments : List String}
    {pieces : List Piece} (hreads : Reads directory file arguments pieces) :
    Reads directory file (pieces.flatMap (Piece.normal directory))
      (pieces.filterMap (Piece.tidy? directory)) := by
  induction hreads with
  | nil => exact .nil
  | last piece hfits hcut =>
      rw [List.flatMap_singleton]
      cases hkept : piece.tidy? directory with
      | none =>
          rw [Piece.normal_of_tidy?_eq_none hkept, List.filterMap_cons_none hkept]
          exact .nil
      | some kept =>
          rw [← Piece.words_of_tidy? hkept, List.filterMap_cons_some hkept]
          exact .last kept (hfits.of_tidy? hdirectory hkept)
            ((Piece.isCut_of_tidy? hkept).trans hcut)
  | cons piece hfits hwhole _ ih =>
      rw [List.flatMap_cons]
      cases hkept : piece.tidy? directory with
      | none =>
          rw [Piece.normal_of_tidy?_eq_none hkept, List.filterMap_cons_none hkept]
          exact ih
      | some kept =>
          rw [← Piece.words_of_tidy? hkept, List.filterMap_cons_some hkept]
          exact .cons kept (hfits.of_tidy? hdirectory hkept)
            ((Piece.isCut_of_tidy? hkept).trans hwhole) ih

theorem Reads.flatMap_words {arguments : List String} {pieces : List Piece}
    (hreads : Reads directory file arguments pieces) :
    pieces.flatMap Piece.words = arguments := by
  induction hreads with
  | nil => rfl
  | last piece => exact List.flatMap_singleton Piece.words piece
  | cons piece _ _ _ ih => rw [List.flatMap_cons, ih]

/-- The normal form of arguments is its own normal form. -/
theorem normalizeArguments_normalizeArguments (hdirectory : Path.isAbsolute directory = true)
    (file : String) (arguments : List String) :
    normalizeArguments directory file (normalizeArguments directory file arguments) =
      normalizeArguments directory file arguments := by
  obtain ⟨pieces, hreads⟩ := exists_reads directory file arguments
  have htidy := hreads.tidy hdirectory
  have hsame : ∀ kept ∈ pieces.filterMap (Piece.tidy? directory),
      kept.normal directory = kept.words := by
    intro kept hmem
    obtain ⟨piece, -, hkept⟩ := List.mem_filterMap.mp hmem
    exact Piece.normal_of_tidy? hdirectory hkept
  calc normalizeArguments directory file (normalizeArguments directory file arguments)
      = normalizeArguments directory file (pieces.flatMap (Piece.normal directory)) := by
        rw [hreads.normalizeArguments_eq]
    _ = (pieces.filterMap (Piece.tidy? directory)).flatMap (Piece.normal directory) :=
        htidy.normalizeArguments_eq
    _ = (pieces.filterMap (Piece.tidy? directory)).flatMap Piece.words :=
        List.flatMap_congr hsame
    _ = pieces.flatMap (Piece.normal directory) := htidy.flatMap_words
    _ = normalizeArguments directory file arguments := hreads.normalizeArguments_eq.symm

/-! ## Clean arguments -/

/-- Arguments with nothing in them that a normal form does without. -/
structure IsClean (directory file : String) (arguments : List String) : Prop where
  /-- What is unwanted is only there as the directory behind a flag. -/
  wanted : ∀ front argument back, arguments = front ++ argument :: back →
    IsUnwanted directory file argument → ∃ sort : DirSort, front.getLast? = some sort.flag
  /-- A directory behind a flag is the same from everywhere. -/
  separate : ∀ front (sort : DirSort) dir back, arguments = front ++ sort.flag :: dir :: back →
    IsPinned dir
  /-- So is a directory that is joined to its flag. -/
  joined : ∀ (sort : DirSort) dir, dir ≠ "" → sort.flag ++ dir ∈ arguments → IsPinned dir

/-- A directory that is the same from everywhere does not look like a flag. -/
theorem IsPinned.ne_append {dir : String} (hpinned : IsPinned dir) (sort : DirSort)
    (value : String) : sort.flag ++ value ≠ dir := by
  rintro rfl
  have habsolute := hpinned.1
  cases sort <;> simp [Path.isAbsolute, DirSort.flag] at habsolute

theorem isClean_nil : IsClean directory file [] := by
  refine ⟨fun front argument back hsplit => ?_, fun front sort dir back hsplit => ?_, by simp⟩
  · simp at hsplit
  · simp at hsplit

/-- One more argument in front, which can only be a flag if nothing is behind it. -/
theorem IsClean.cons {rest : List String} (hwanted : ¬IsUnwanted directory file argument)
    (hlast : ∀ sort : DirSort, argument = sort.flag → rest = [])
    (hjoined : ∀ (sort : DirSort) dir, dir ≠ "" → sort.flag ++ dir = argument → IsPinned dir)
    (hrest : IsClean directory file rest) : IsClean directory file (argument :: rest) := by
  refine ⟨fun front unwanted back hsplit hunwanted => ?_, fun front sort dir back hsplit => ?_,
    fun sort dir hdir hmem => ?_⟩
  · obtain ⟨rfl, hhead⟩ | ⟨front, rfl, rfl⟩ := List.cons_eq_append_iff.mp hsplit
    · cases hhead
      exact absurd hunwanted hwanted
    · obtain ⟨sort, hsort⟩ := hrest.wanted front unwanted back rfl hunwanted
      exact ⟨sort, by rw [List.getLast?_cons, hsort, Option.getD_some]⟩
  · obtain ⟨rfl, hhead⟩ | ⟨front, rfl, rfl⟩ := List.cons_eq_append_iff.mp hsplit
    · obtain ⟨rfl, hbehind⟩ := List.cons.inj hhead
      cases hbehind.trans (hlast sort rfl)
    · exact hrest.separate front sort dir back rfl
  · obtain heq | hlater := List.mem_cons.mp hmem
    · exact hjoined sort dir hdir heq
    · exact hrest.joined sort dir hdir hlater

/-- A flag and its directory in front. -/
theorem IsClean.pair {rest : List String} {dir : String} (sort : DirSort) (hdir : IsPinned dir)
    (hrest : IsClean directory file rest) :
    IsClean directory file (sort.flag :: dir :: rest) := by
  refine ⟨fun front unwanted back hsplit hunwanted => ?_, fun front other value back hsplit => ?_,
    fun other value hvalue hmem => ?_⟩
  · obtain ⟨rfl, hhead⟩ | ⟨front, rfl, hbehind⟩ := List.cons_eq_append_iff.mp hsplit
    · cases hhead
      exact absurd hunwanted (not_isUnwanted_flag sort)
    · obtain ⟨rfl, -⟩ | ⟨front, rfl, rfl⟩ := List.cons_eq_append_iff.mp hbehind
      · exact ⟨sort, rfl⟩
      · obtain ⟨found, hfound⟩ := hrest.wanted front unwanted back rfl hunwanted
        exact ⟨found, by rw [List.getLast?_cons, List.getLast?_cons, hfound]; rfl⟩
  · obtain ⟨rfl, hhead⟩ | ⟨front, rfl, hbehind⟩ := List.cons_eq_append_iff.mp hsplit
    · cases (List.cons.inj hhead).2
      exact hdir
    · obtain ⟨rfl, hhead⟩ | ⟨front, rfl, rfl⟩ := List.cons_eq_append_iff.mp hbehind
      · refine absurd ?_ (hdir.ne_append other "")
        rw [String.append_empty, (List.cons.inj hhead).1]
      · exact hrest.separate front other value back rfl
  · obtain hflag | hmem := List.mem_cons.mp hmem
    · exact absurd (DirSort.eq_empty_of_append_eq_flag hflag) hvalue
    · obtain heq | hlater := List.mem_cons.mp hmem
      · exact absurd heq (hdir.ne_append other value)
      · exact hrest.joined other value hvalue hlater

/-- What is read as pieces of a normal form is clean. -/
theorem Reads.isClean {arguments : List String} {pieces : List Piece}
    (hreads : Reads directory file arguments pieces) (htidy : ∀ piece ∈ pieces, piece.IsTidy) :
    IsClean directory file arguments := by
  induction hreads with
  | nil => exact isClean_nil
  | last piece _ hcut =>
      have hpiece := htidy piece List.mem_cons_self
      match piece with
      | .separate sort none =>
          exact isClean_nil.cons (not_isUnwanted_flag sort) (fun _ _ => rfl)
            fun other dir hdir hflag => absurd (DirSort.eq_empty_of_append_eq_flag hflag) hdir
  | cons piece hfits hwhole _ ih =>
      obtain ⟨hpiece, hpieces⟩ := List.forall_mem_cons.mp htidy
      have hrest := ih hpieces
      match piece with
      | .separate sort (some dir) => exact hrest.pair sort (hpiece dir rfl)
      | .joined sort dir =>
          refine hrest.cons (not_isUnwanted_append sort dir) ?_ ?_
          · intro other hother
            exact absurd (DirSort.eq_empty_of_append_eq_flag hother) hfits
          · intro other value _ hsame
            rw [(DirSort.append_inj hsame).2]
            exact hpiece
      | .other argument =>
          obtain ⟨hwanted, hread⟩ := hfits
          refine hrest.cons hwanted ?_ ?_
          · intro other hother
            exact absurd hother (DirSort.ne_flag_of_read?_eq_none hread other)
          · intro other value _ hsame
            exact absurd hsame (DirSort.ne_append_of_read?_eq_none hread other value)

theorem isClean_normalizeArguments (hdirectory : Path.isAbsolute directory = true)
    (file : String) (arguments : List String) :
    IsClean directory file (normalizeArguments directory file arguments) := by
  obtain ⟨pieces, hreads⟩ := exists_reads directory file arguments
  rw [hreads.normalizeArguments_eq]
  refine (hreads.tidy hdirectory).isClean fun kept hmem => ?_
  obtain ⟨piece, -, hkept⟩ := List.mem_filterMap.mp hmem
  exact Piece.isTidy_of_tidy? hdirectory hkept

end

/-! ## Commands in normal form -/

theorem normalize?_eq_some_iff {entry : RawCommand} {command : CompileCommand} :
    entry.normalize? = some command ↔
      command.file = Path.absolutize entry.directory entry.file ∧
        ∃ words, entry.words? = some words ∧
          command.arguments = normalizeArguments entry.directory command.file (words.drop 1) := by
  rw [normalize?, Option.map_eq_some_iff]
  constructor
  · rintro ⟨words, hwords, rfl⟩
    exact ⟨rfl, words, hwords, rfl⟩
  · rintro ⟨hfile, words, hwords, harguments⟩
    refine ⟨words, hwords, ?_⟩
    rw [← hfile, ← harguments]

/-- In an absolute directory, the normal form of a command is clean; it is what the pieces leave
that the arguments are read as; and a command with these arguments, whatever its compiler, has the
same normal form. -/
theorem normalize?_clean_idempotent {entry : RawCommand} {command : CompileCommand}
    (hdirectory : Path.isAbsolute entry.directory = true)
    (hnormal : entry.normalize? = some command) :
    IsClean entry.directory command.file command.arguments ∧
      (∃ words, entry.words? = some words ∧
        (∃ pieces, Reads entry.directory command.file (words.drop 1) pieces) ∧
        ∀ pieces, Reads entry.directory command.file (words.drop 1) pieces →
          command.arguments = pieces.flatMap (Piece.normal entry.directory)) ∧
      ∀ (again : RawCommand) (compiler : String), again.directory = entry.directory →
        again.file = entry.file ∨ again.file = command.file →
        again.words? = some (compiler :: command.arguments) →
        again.normalize? = some command := by
  obtain ⟨hfile, words, hwords, harguments⟩ := normalize?_eq_some_iff.mp hnormal
  refine ⟨?_, ⟨words, hwords, exists_reads _ _ _, fun pieces hreads => ?_⟩,
    fun again compiler hsame hagain hargv => ?_⟩
  · rw [harguments]
    exact isClean_normalizeArguments hdirectory command.file (words.drop 1)
  · rw [harguments, hreads.normalizeArguments_eq]
  · refine normalize?_eq_some_iff.mpr ⟨?_, _, hargv, ?_⟩
    · -- the file of the normal form is absolute already
      have habsolute := (isPinned_absolutize hdirectory entry.file).1
      obtain hgiven | hgiven := hagain
      · rw [hsame, hgiven, hfile]
      · rw [hsame, hgiven, hfile, Path.absolutize_absolutize habsolute]
    · rw [hsame, List.drop_one, List.tail_cons, harguments,
        normalizeArguments_normalizeArguments hdirectory]

/-- A command with flags that lose their value if anything between is dropped, and with its file
in three spellings, one of them a directory. -/
def spelledSample : RawCommand where
  directory := "/w/build"
  file := "../m.c"
  arguments := some ["cc", "-c", "-I", "-c", "-o", "-I", "-objc", "../m.c", "", "-iquote",
    "/w/./m.c", "-DX", "-om.o", "-Ia/..", "/w//m.c", "-isystem"]

theorem normalize?_clean_idempotent_spelledSample :
    ∃ command, spelledSample.normalize? = some command ∧
      command.arguments = ["-I", "/w/build/-c", "-objc", "", "-iquote", "/w/m.c", "-DX",
        "-I/w/build", "-isystem"] ∧
      IsClean "/w/build" command.file command.arguments ∧
      { spelledSample with arguments := some ("c++" :: command.arguments) }.normalize? =
        some command := by
  have hdirectory : Path.isAbsolute spelledSample.directory = true := by decide
  obtain ⟨hclean, -, hagain⟩ := normalize?_clean_idempotent hdirectory rfl
  exact ⟨_, rfl, by decide +kernel, hclean, hagain _ "c++" rfl (.inl rfl) rfl⟩

end RawCommand
end SourceIndex
