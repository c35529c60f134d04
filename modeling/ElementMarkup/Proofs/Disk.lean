import ElementMarkup.Disk
import ElementMarkup.Proofs.Encoding
import ElementMarkup.Proofs.Path
import ElementMarkup.Proofs.Table

/-!
What may change on a disk. Making directories leaves every file as it is and adds directories only
on the way to the one that is made; writing changes what stands at one place. Both say what a reader
of the disk's files can tell: nothing after the one, the content of one file after the other.
-/

namespace ElementMarkup

/-- The names from the root to where some first parts of a location lead. -/
def Location.Passes (location : Location) (names : List String) : Prop :=
  ∃ front, front <+: location.parts ∧ names = front.foldl Path.follow []

namespace Disk

variable {disk after : Disk} {location : Location} {names : List String}

theorem walk_eq_ok {reached parts : List String} (walks : disk.walk reached parts = .ok names) :
    names = parts.foldl Path.follow reached := by
  induction parts generalizing reached with
  | nil =>
    cases walks
    rfl
  | cons part rest ih =>
    unfold walk at walks
    split at walks
    · cases walks
    · cases walks
    · split at walks
      · cases walks
      · exact ih walks

theorem walk_append {start front : List String} (walks : disk.walk start front = .ok names)
    (rest : List String) : disk.walk start (front ++ rest) = disk.walk names rest := by
  induction front generalizing start with
  | nil =>
    cases walks
    rfl
  | cons part more ih =>
    unfold walk at walks
    split at walks
    · cases walks
    · cases walks
    · rename_i directory
      split at walks
      · cases walks
      · rename_i short
        rw [List.cons_append, walk, directory]
        simp only [if_neg short]
        exact ih walks

/-- Where directories stay, every way through them stays. -/
theorem walk_mono {reached parts : List String} (walks : disk.walk reached parts = .ok names)
    (stay : ∀ way, disk.node? way = some .directory → after.node? way = some .directory) :
    after.walk reached parts = .ok names := by
  induction parts generalizing reached with
  | nil => exact walks
  | cons part rest ih =>
    unfold walk at walks ⊢
    split at walks
    · cases walks
    · cases walks
    · rename_i directory
      split at walks
      · cases walks
      · rename_i short
        simp only [stay _ directory, if_neg short]
        exact ih walks

theorem reach_eq_ok (reaches : disk.reach location = .ok names) :
    names = location.way ∧ location.text.utf8ByteSize ≤ longestPath ∧ location.hasNull = false := by
  unfold reach at reaches
  split at reaches
  · cases reaches
  · rename_i plain
    split at reaches
    · cases reaches
    · rename_i short
      exact ⟨walk_eq_ok reaches, Nat.le_of_not_lt short, Bool.eq_false_iff.mpr plain⟩

theorem reach_mono (reaches : disk.reach location = .ok names)
    (stay : ∀ way, disk.node? way = some .directory → after.node? way = some .directory) :
    after.reach location = .ok names := by
  unfold reach at reaches ⊢
  split at reaches
  · cases reaches
  · rename_i plain
    split at reaches
    · cases reaches
    · rename_i short
      rw [if_neg plain, if_neg short]
      exact walk_mono reaches stay

theorem bytes_eq_ok {bytes : List UInt8} (reads : disk.bytes location = .ok bytes) :
    disk.node? location.way = some (.file bytes) ∧ location.text.utf8ByteSize ≤ longestPath ∧
      location.hasNull = false := by
  unfold Disk.bytes find at reads
  cases reached : disk.reach location with
  | error reason => simp [reached] at reads
  | ok names =>
    obtain ⟨rfl, usable⟩ := reach_eq_ok reached
    cases stands : disk.node? location.way with
    | none => simp [reached, stands] at reads
    | some node =>
      cases node with
      | directory => simp [reached, stands] at reads
      | file content =>
        simp only [reached, stands, Except.ok.injEq] at reads
        exact ⟨by rw [reads], usable⟩

theorem isFile_eq_true (there : disk.isFile location = .ok true) :
    ∃ bytes, disk.bytes location = .ok bytes := by
  unfold isFile at there
  split at there
  · rename_i bytes found
    exact ⟨bytes, by rw [Disk.bytes, found]⟩
  · cases there
  · cases there

theorem isFile_eq_error {fault : Fault}
    (refused : disk.isFile location = .error fault) : fault = ⟨.nameTooLong, location.text⟩ := by
  unfold isFile at refused
  split at refused
  · cases refused
  · cases refused
    rfl
  · cases refused

/-- A name that is too long, in a directory that is there, cannot be asked about. -/
theorem isFile_long_name {front : List String} {name : String} (usable : location.hasNull = false)
    (fits : location.text.utf8ByteSize ≤ longestPath) (parts : location.parts = front ++ [name])
    (walks : disk.walk [] front = .ok names) (directory : disk.node? names = some .directory)
    (long : longestName < name.utf8ByteSize) :
    disk.isFile location = .error ⟨.nameTooLong, location.text⟩ := by
  have stops : disk.walk [] location.parts = .error .nameTooLong := by
    rw [parts, walk_append walks, walk, directory]
    simp only [if_pos long]
  simp only [isFile, find, reach, usable, if_neg (Nat.not_lt.mpr fits), stops]
  rfl

theorem node?_store (disk : Disk) {names : List String} (proper : names ≠ []) (node : Node)
    (other : List String) :
    node? (Table.store disk names node) other = if other = names then some node else disk.node? other := by
  unfold node?
  by_cases root : other = []
  · rw [if_pos root, if_pos root, if_neg (root ▸ Ne.symm proper)]
  · rw [if_neg root, if_neg root, Table.find?_store]

/-! ### Changes -/

/-- Directories are made one after another where nothing stands, on the way to a location. -/
inductive Makes (location : Location) : Disk → Disk → Prop where
  | nothing (disk : Disk) : Makes location disk disk
  | directory {disk after : Disk} {names : List String} (absent : disk.node? names = none)
      (passes : location.Passes names) (later : Makes location (Table.store disk names .directory) after) :
      Makes location disk after

theorem Makes.trans {middle : Disk} (makes : Makes location disk middle)
    (more : Makes location middle after) : Makes location disk after := by
  induction makes with
  | nothing => exact more
  | directory absent passes _ ih => exact .directory absent passes (ih more)

theorem ne_nil_of_absent (absent : disk.node? names = none) : names ≠ [] := by
  rintro rfl
  cases absent

theorem sources_store_directory (decoder : Encoding.Decoder) (absent : disk.node? names = none) :
    sources (Table.store disk names .directory) decoder = disk.sources decoder := by
  have proper := ne_nil_of_absent absent
  rw [node?, if_neg proper] at absent
  rw [Table.store_of_absent _ absent, sources, List.flatMap_append]
  exact List.append_nil _

theorem Makes.sources_eq (makes : Makes location disk after) (decoder : Encoding.Decoder) :
    after.sources decoder = disk.sources decoder := by
  induction makes with
  | nothing => rfl
  | directory absent _ _ ih => rw [ih, sources_store_directory decoder absent]

/-- Only directories are new, all on the way to a location. Every file is as it was. -/
structure OnlyMakes (location : Location) (before after : Disk) : Prop where
  files : ∀ names bytes,
    after.node? names = some (.file bytes) ↔ before.node? names = some (.file bytes)
  directories : ∀ names, after.node? names ≠ before.node? names →
    before.node? names = none ∧ after.node? names = some .directory ∧ location.Passes names

theorem Makes.kept_or_new (makes : Makes location disk after) (names : List String) :
    after.node? names = disk.node? names ∨
      disk.node? names = none ∧ after.node? names = some .directory ∧ location.Passes names := by
  induction makes with
  | nothing => exact Or.inl rfl
  | @directory disk after made absent passes _ ih =>
    rw [node?_store disk (ne_nil_of_absent absent)] at ih
    by_cases new : names = made
    · subst new
      rw [if_pos rfl] at ih
      rcases ih with kept | ⟨impossible, -⟩
      · exact Or.inr ⟨absent, kept, passes⟩
      · cases impossible
    · rwa [if_neg new] at ih

theorem Makes.onlyMakes (makes : Makes location disk after) : OnlyMakes location disk after := by
  refine ⟨fun names bytes => ?_, fun names different => ?_⟩
  · rcases makes.kept_or_new names with kept | ⟨absent, new, -⟩
    · rw [kept]
    · rw [absent, new]
      exact iff_of_false nofun nofun
  · exact (makes.kept_or_new names).resolve_left different

theorem Makes.bytes_eq {output : Location} {old new : List UInt8}
    (makes : Makes output disk after) (was : disk.bytes location = .ok old)
    (reads : after.bytes location = .ok new) : new = old := by
  have kept := (makes.onlyMakes.files location.way old).mpr (bytes_eq_ok was).1
  have now := (bytes_eq_ok reads).1.symm.trans kept
  cases now
  rfl

theorem makes_of_makeDirectory {target : Location} (inside : target.parts <+: location.parts)
    (made : disk.makeDirectory target = .ok after) : Makes location disk after := by
  unfold makeDirectory at made
  split at made
  · cases made
  · rename_i names reached
    split at made
    · cases made
    · rename_i absent
      cases made
      exact .directory absent ⟨target.parts, inside, (reach_eq_ok reached).1⟩ (.nothing _)

/-- Whatever a refusal comes to, it leaves the disk as it is. -/
theorem settled_disk (disk : Disk) (location : Location) (reason : Reason) :
    (settled disk location reason).2 = disk := by
  unfold settled refused
  split <;> rfl

theorem makes_of_make {target : Location} {above : Made} (inside : target.parts <+: location.parts)
    (before : Makes location disk above.2) : Makes location disk (make settled disk target above).2 := by
  unfold make
  split
  · rename_i made
    exact makes_of_makeDirectory inside made
  · exact before
  · rename_i middle _
    split
    · rename_i made
      exact before.trans (makes_of_makeDirectory inside made)
    · rw [settled_disk]
      exact before
  · rw [settled_disk]
    exact .nothing disk

theorem makeAll_makes (root : String) {reversed : List String}
    (inside : reversed.reverse <+: location.parts) :
    Makes location disk (makeAll root disk reversed).2 := by
  induction reversed with
  | nil => exact .nothing disk
  | cons part above ih =>
    refine makes_of_make inside (ih (List.IsPrefix.trans ?_ inside))
    rw [List.reverse_cons]
    exact List.prefix_append _ _

theorem makeDirectories_makes (disk : Disk) (location : Location) :
    Makes location disk (disk.makeDirectories location).2 := by
  apply makeAll_makes
  simp

/-- One file is set to some bytes. Nothing else changes, but for directories on the way to
`directory`. -/
structure Writes (directory location : Location) (bytes : List UInt8) (before after : Disk) : Prop where
  content : after.bytes location = .ok bytes
  files : ∀ names content, names ≠ location.way →
    (after.node? names = some (.file content) ↔ before.node? names = some (.file content))
  directories : ∀ names, names ≠ location.way → after.node? names ≠ before.node? names →
    before.node? names = none ∧ after.node? names = some .directory ∧ directory.Passes names

theorem write_eq_ok {bytes : List UInt8} (writes : disk.write location bytes = .ok after) :
    after.bytes location = .ok bytes ∧
      ∀ names, names ≠ location.way → after.node? names = disk.node? names := by
  unfold write at writes
  split at writes
  · cases writes
  · rename_i names reached
    split at writes
    · cases writes
    · rename_i free
      cases writes
      have proper : names ≠ [] := by
        rintro rfl
        exact free rfl
      -- the directories on the way are not what is written to
      have stay : ∀ way, disk.node? way = some .directory →
          node? (Table.store disk names (.file bytes)) way = some .directory := by
        intro way directory
        rw [node?_store disk proper, if_neg (by rintro rfl; exact free directory), directory]
      have there := reach_mono reached stay
      have stands := node?_store disk proper (.file bytes) names
      rw [if_pos rfl] at stands
      refine ⟨by simp only [Disk.bytes, find, there, stands], fun other different => ?_⟩
      rw [node?_store disk proper, if_neg ((reach_eq_ok reached).1 ▸ different)]

theorem Makes.writes {directory : Location} {middle : Disk} {bytes : List UInt8}
    (makes : Makes directory disk middle) (writes : middle.write location bytes = .ok after) :
    Writes directory location bytes disk after := by
  obtain ⟨content, others⟩ := write_eq_ok writes
  have only := makes.onlyMakes
  refine ⟨content, fun names bytes other => ?_, fun names other different => ?_⟩
  · rw [others names other]
    exact only.files names bytes
  · rw [others names other] at different ⊢
    exact only.directories names different

def Proper (disk : Disk) : Prop := ∀ entry ∈ disk, ∀ name ∈ entry.1, Path.IsName name

theorem mem_sources {decoder : Encoding.Decoder} {path text : String}
    (member : (path, .ok text) ∈ disk.sources decoder) : ∃ bytes, decoder bytes = .ok text := by
  obtain ⟨⟨names, node⟩, -, inside⟩ := List.mem_flatMap.mp member
  cases node with
  | directory => cases inside
  | file bytes =>
    obtain ⟨other, -, same⟩ := List.mem_map.mp inside
    exact ⟨bytes, Encoding.mapError_eq_ok.mp (congrArg Prod.snd same)⟩

theorem written_inj {others : List String} (named : ∀ name ∈ names, Path.IsName name)
    (alike : ∀ name ∈ others, Path.IsName name) (same : written names = written others) :
    names = others :=
  Path.intercalate_inj named alike (String.append_right_inj _ |>.mp same)

theorem slash_written_ne {others : List String} (named : ∀ name ∈ names, Path.IsName name) :
    "/" ++ written others ≠ written names := by
  intro same
  have chars := congrArg String.toList same
  simp only [written, String.toList_append] at chars
  apply Path.intercalate_head?_ne_slash named
  rw [← List.append_cancel_left chars]
  rfl

theorem find?_sources {decoder : Encoding.Decoder} {bytes : List UInt8} {text : String}
    (decoded : decoder bytes = .ok text) (proper : disk.Proper)
    (named : ∀ name ∈ names, Path.IsName name) (short : (written names).utf8ByteSize ≤ longestPath)
    (stands : disk.node? names = some (.file bytes)) :
    Table.find? (disk.sources decoder) (written names) = some (.ok text) := by
  have below : names ≠ [] := by
    rintro rfl
    cases stands
  rw [node?, if_neg below] at stands
  induction disk with
  | nil => cases stands
  | cons entry rest ih =>
    obtain ⟨own, later⟩ := List.forall_mem_cons.mp proper
    obtain ⟨others, node⟩ := entry
    rw [Table.find?_cons] at stands
    rw [sources, List.flatMap_cons]
    split at stands
    · rename_i same
      subst same
      cases stands
      simp [short, Table.find?_cons, decoded, Except.mapError]
    · rename_i different
      have rested := ih later stands
      cases node with
      | directory => exact rested
      | file content =>
        rw [Table.find?_append_of_ne _ ?_]
        · exact rested
        · intro entry member
          obtain ⟨path, kept, rfl⟩ := List.mem_map.mp member
          rcases List.mem_pair.mp (List.mem_filter.mp kept).1 with rfl | rfl
          · exact fun same => different (written_inj own named same)
          · exact slash_written_ne named

end Disk

end ElementMarkup
