import Oscam.Stat.StatLines

/-!
# Statistics survive a restart

The statistics that are written to the file and read back: which labels the
format carries, and what full debug does to the records.
-/

namespace Oscam.Stat

open Monitor (ascii cstr)

variable {cfg : LbCfg} {fullDebug : Bool}

/-! ## The records of a file -/

/-- What is read from some lines, once the type is known. -/
def readRecords (type : FileType) (lines : List (List UInt8)) :
    List (List UInt8 × ReaderStat) :=
  ((lines.map cstr).filter kept).filterMap type.read

/-- What is read from a file. -/
def readFile (file : List UInt8) : List (List UInt8 × ReaderStat) :=
  let lines := fgetsLines 1024 file
  match ((lines.map cstr).filter kept).head? with
  | none => []
  | some first => readRecords (fileType first) lines

def LoadState.addRecord (cfg : LbCfg) (fullDebug : Bool) (s : LoadState)
    (record : List UInt8 × ReaderStat) : LoadState :=
  s.addStat cfg fullDebug record.1 record.2

theorem type_addStat (s : LoadState) (buf : List UInt8) (stat : ReaderStat) :
    (s.addStat cfg fullDebug buf stat).type = s.type := by
  unfold LoadState.addStat
  split <;> rfl

theorem loadLine_of_kept (s : LoadState) {line : List UInt8}
    (use : kept (cstr line) = true) :
    s.loadLine cfg fullDebug line =
      ((s.type.getD (fileType (cstr line))).read (cstr line)).elim
        { s with type := some (s.type.getD (fileType (cstr line))) }
        (LoadState.addRecord cfg fullDebug
          { s with type := some (s.type.getD (fileType (cstr line))) }) := by
  unfold LoadState.loadLine
  rw [if_pos use]
  dsimp only
  cases (s.type.getD (fileType (cstr line))).read (cstr line) <;> rfl

theorem foldl_loadLine_of_type {type : FileType} (lines : List (List UInt8))
    {s : LoadState} (known : s.type = some type) :
    lines.foldl (LoadState.loadLine cfg fullDebug) s =
      (readRecords type lines).foldl (LoadState.addRecord cfg fullDebug) s := by
  induction lines generalizing s with
  | nil => rfl
  | cons line lines induction =>
      unfold readRecords at induction ⊢
      rw [List.foldl_cons, List.map_cons]
      by_cases use : kept (cstr line) = true
      · have same : { s with type := some type } = s := by rw [← known]
        rw [loadLine_of_kept s use, known, Option.getD_some, same,
          List.filter_cons_of_pos use]
        cases read : type.read (cstr line) with
        | none =>
            rw [List.filterMap_cons_none read]
            exact induction known
        | some record =>
            rw [List.filterMap_cons_some read, List.foldl_cons]
            exact induction (by
              rw [Option.elim_some, LoadState.addRecord, type_addStat, known])
      · have skipped : s.loadLine cfg fullDebug line = s := if_neg use
        rw [skipped, List.filter_cons_of_neg use]
        exact induction known

/-- The loop over the lines: the first line that is not skipped gives the type
of the file. -/
theorem foldl_loadLine (lines : List (List UInt8)) {s : LoadState}
    (new : s.type = none) :
    lines.foldl (LoadState.loadLine cfg fullDebug) s =
      match ((lines.map cstr).filter kept).head? with
      | none => s
      | some first =>
          (readRecords (fileType first) lines).foldl
            (LoadState.addRecord cfg fullDebug)
            { s with type := some (fileType first) } := by
  induction lines with
  | nil => rfl
  | cons line lines induction =>
      by_cases use : kept (cstr line) = true
      · rw [List.map_cons, List.filter_cons_of_pos use, List.head?_cons]
        dsimp only
        rw [← foldl_loadLine_of_type (line :: lines) rfl, List.foldl_cons,
          List.foldl_cons, loadLine_of_kept _ use, loadLine_of_kept _ use, new,
          Option.getD_none, Option.getD_some]
      · have skipped : s.loadLine cfg fullDebug line = s := if_neg use
        have records : ∀ type, readRecords type (line :: lines) =
            readRecords type lines := by
          intro type
          unfold readRecords
          rw [List.map_cons, List.filter_cons_of_neg use]
        rw [List.foldl_cons, skipped, induction, List.map_cons,
          List.filter_cons_of_neg use]
        simp only [records]

/-! ## Whose records they are -/

/-- The records that a reader gets, in their order. -/
def statsFor (label : List UInt8)
    (records : List (List UInt8 × ReaderStat)) : List ReaderStat :=
  (records.filter (·.1 = label)).map (·.2)

/-- A reader with more records loaded. -/
def StatReader.loaded (cfg : LbCfg) (fullDebug : Bool)
    (stats : List ReaderStat) (rdr : StatReader) : StatReader :=
  { rdr with lbStat := stats.foldl (appendStat cfg fullDebug) rdr.lbStat }

theorem label_of_findReader {readers : List StatReader} {rdr : Option Nat}
    {buf : List UInt8} {place : Nat}
    (found : findReader readers rdr buf = some place) :
    ∃ rdr, readers[place]? = some rdr ∧ rdr.label = buf := by
  unfold findReader at found
  split at found
  · rename_i same
    subst found
    simpa using same
  · obtain ⟨inside, same, _⟩ := List.findIdx?_eq_some_iff_getElem.mp found
    exact ⟨readers[place], List.getElem?_eq_getElem inside, by simpa using same⟩

theorem findReader_eq_none {readers : List StatReader} {rdr : Option Nat}
    {buf : List UInt8} (lost : findReader readers rdr buf = none) :
    ∀ reader ∈ readers, reader.label ≠ buf := by
  unfold findReader at lost
  split at lost
  · rename_i same
    subst lost
    exact absurd same (by simp)
  · intro reader member
    have other := List.findIdx?_eq_none_iff.mp lost reader member
    simpa using other

variable (cfg fullDebug) in
/-- With distinct labels a record goes to the one reader that has the label. -/
theorem readers_addRecord (s : LoadState)
    (distinct : (s.readers.map (·.label)).Nodup)
    (record : List UInt8 × ReaderStat) :
    (s.addRecord cfg fullDebug record).readers =
      s.readers.map fun rdr =>
        rdr.loaded cfg fullDebug (statsFor rdr.label [record]) := by
  obtain ⟨buf, stat⟩ := record
  have matching : ∀ rdr : StatReader, rdr.label = buf →
      statsFor rdr.label [(buf, stat)] = [stat] := by
    intro rdr same
    simp [statsFor, same]
  have other : ∀ rdr : StatReader, rdr.label ≠ buf →
      rdr.loaded cfg fullDebug (statsFor rdr.label [(buf, stat)]) = rdr := by
    intro rdr different
    have none : statsFor rdr.label [(buf, stat)] = [] := by
      simp [statsFor, Ne.symm different]
    rw [none]
    rfl
  rw [LoadState.addRecord, LoadState.addStat]
  cases found : findReader s.readers s.rdr buf with
  | none =>
      have lost := findReader_eq_none found
      dsimp only
      symm
      rw [List.map_congr_left (g := id), List.map_id]
      intro rdr member
      exact other rdr (lost rdr member)
  | some place =>
      obtain ⟨target, here, same⟩ := label_of_findReader found
      obtain ⟨inside, there⟩ := List.getElem?_eq_some_iff.mp here
      apply List.ext_getElem
      · simp
      · intro position left right
        rw [List.length_modify] at left
        rw [List.getElem_modify, List.getElem_map]
        by_cases hit : place = position
        · subst hit
          have label : s.readers[place].label = buf := by rw [there, same]
          rw [if_pos rfl, matching _ label]
          rfl
        · rw [if_neg hit]
          symm
          apply other
          intro label
          have first : place < (s.readers.map (·.label)).length := by
            rw [List.length_map]
            exact inside
          have second : position < (s.readers.map (·.label)).length := by
            rw [List.length_map]
            exact left
          have both : (s.readers.map (·.label))[place] =
              (s.readers.map (·.label))[position] := by
            rw [List.getElem_map, List.getElem_map, label, there, same]
          exact hit (distinct.getElem_inj_iff.mp both)

theorem statsFor_append (label : List UInt8)
    (first second : List (List UInt8 × ReaderStat)) :
    statsFor label (first ++ second) =
      statsFor label first ++ statsFor label second := by
  unfold statsFor
  rw [List.filter_append, List.map_append]

theorem statsFor_own (label : List UInt8) (stats : List ReaderStat) :
    statsFor label (stats.map fun stat => (label, stat)) = stats := by
  unfold statsFor
  rw [List.filter_eq_self.mpr, List.map_map]
  · exact List.map_id _
  · intro record member
    obtain ⟨stat, _inside, rfl⟩ := List.mem_map.mp member
    exact decide_eq_true rfl

theorem statsFor_other {label : List UInt8}
    {records : List (List UInt8 × ReaderStat)}
    (other : ∀ record ∈ records, record.1 ≠ label) :
    statsFor label records = [] := by
  unfold statsFor
  rw [List.filter_eq_nil_iff.mpr, List.map_nil]
  intro record member
  simpa using other record member

theorem loaded_append (first second : List ReaderStat) (rdr : StatReader) :
    (rdr.loaded cfg fullDebug first).loaded cfg fullDebug second =
      rdr.loaded cfg fullDebug (first ++ second) := by
  unfold StatReader.loaded
  rw [List.foldl_append]

theorem readers_foldl_addRecord (records : List (List UInt8 × ReaderStat))
    (s : LoadState) (distinct : (s.readers.map (·.label)).Nodup) :
    (records.foldl (LoadState.addRecord cfg fullDebug) s).readers =
      s.readers.map fun rdr =>
        rdr.loaded cfg fullDebug (statsFor rdr.label records) := by
  induction records generalizing s with
  | nil => exact (List.map_id _).symm
  | cons record records induction =>
      have step := readers_addRecord cfg fullDebug s distinct record
      have labels : (s.addRecord cfg fullDebug record).readers.map (·.label) =
          s.readers.map (·.label) := by
        rw [step, List.map_map]
        rfl
      rw [List.foldl_cons, induction _ (labels ▸ distinct), step, List.map_map]
      apply List.map_congr_left
      intro rdr _member
      have both : statsFor rdr.label (record :: records) =
          statsFor rdr.label [record] ++ statsFor rdr.label records :=
        statsFor_append rdr.label [record] records
      rw [both, ← loaded_append]
      rfl

/-- Each reader gets the records of its label. -/
theorem loadStatFromFile_eq (file : List UInt8) {readers : List StatReader}
    (distinct : (readers.map (·.label)).Nodup) :
    loadStatFromFile cfg fullDebug file readers =
      readers.map fun rdr =>
        rdr.loaded cfg fullDebug (statsFor rdr.label (readFile file)) := by
  unfold loadStatFromFile readFile
  rw [foldl_loadLine _ rfl]
  dsimp only
  cases (((fgetsLines 1024 file).map cstr).filter kept).head? with
  | none => exact (List.map_id _).symm
  | some first => exact readers_foldl_addRecord _ _ distinct

/-! ## Full debug -/

/-- `get_stat` does not take the older record for the newer one. -/
def Apart (cfg : LbCfg) (old new : ReaderStat) : Prop :=
  old.isFor new.caid (getPrid cfg new.caid new.prid) new.srvid
    new.ecmlen = false

theorem length_moveFirst (nodes : List StatNode) (place : Nat) :
    (moveFirst nodes place).1.length = nodes.length := by
  unfold moveFirst
  split
  · rfl
  · rename_i node here
    obtain ⟨inside, _there⟩ := List.getElem?_eq_some_iff.mp here
    dsimp only
    split
    · rw [List.length_cons, List.length_eraseIdx_of_lt inside]
      omega
    · exact List.length_set

variable (cfg) in
/-- `get_stat` finds nothing and leaves the list as it is, or keeps its
length. -/
theorem getStatNodes_cases (nodes : List StatNode) (stat : ReaderStat) :
    (getStatNodes cfg nodes stat.caid stat.prid stat.srvid stat.ecmlen =
        (nodes, none) ∧ ∀ node ∈ nodes, Apart cfg node.stat stat) ∨
      ∃ kept place,
        getStatNodes cfg nodes stat.caid stat.prid stat.srvid stat.ecmlen =
          (kept, some place) ∧ kept.length = nodes.length ∧
        ∃ node ∈ nodes, ¬ Apart cfg node.stat stat := by
  unfold getStatNodes
  dsimp only
  cases found : nodes.findIdx? fun node =>
      node.stat.isFor stat.caid (getPrid cfg stat.caid stat.prid) stat.srvid
        stat.ecmlen with
  | none =>
      left
      exact ⟨rfl, List.findIdx?_eq_none_iff.mp found⟩
  | some place =>
      right
      obtain ⟨inside, isFor, _first⟩ :=
        List.findIdx?_eq_some_iff_getElem.mp found
      have hit : ∃ node ∈ nodes, ¬ Apart cfg node.stat stat :=
        ⟨nodes[place], List.getElem_mem inside, by simpa [Apart] using isFor⟩
      dsimp only
      split
      · refine ⟨_, _, rfl, ?_, hit⟩
        rw [length_moveFirst]
        exact List.length_modify _ _ _
      · exact ⟨_, _, rfl, List.length_modify _ _ _, hit⟩

theorem appendStat_of_apart {nodes : List StatNode} {stat : ReaderStat}
    (apart : fullDebug = true → ∀ node ∈ nodes, Apart cfg node.stat stat) :
    appendStat cfg fullDebug nodes stat = nodes ++ [{ stat, flag := 0 }] := by
  unfold appendStat
  split
  · rename_i debug
    rcases getStatNodes_cases cfg nodes stat with
      ⟨none, _⟩ | ⟨_, _, _, _, node, member, hit⟩
    · rw [none]
    · exact absurd (apart debug node member) hit
  · rfl

/-- With full debug a record that is taken for an older one is dropped. -/
theorem length_appendStat_of_not_apart {nodes : List StatNode}
    {stat : ReaderStat} (debug : fullDebug = true)
    (hit : ¬ ∀ node ∈ nodes, Apart cfg node.stat stat) :
    (appendStat cfg fullDebug nodes stat).length = nodes.length := by
  rcases getStatNodes_cases cfg nodes stat with
    ⟨_, none⟩ | ⟨kept, place, found, length, _⟩
  · exact absurd none hit
  · rw [appendStat, if_pos debug, found]
    exact length

variable (cfg fullDebug) in
theorem length_appendStat_le (nodes : List StatNode) (stat : ReaderStat) :
    (appendStat cfg fullDebug nodes stat).length ≤ nodes.length + 1 := by
  unfold appendStat
  split
  · rcases getStatNodes_cases cfg nodes stat with
      ⟨none, _⟩ | ⟨kept, place, found, same, _⟩
    · rw [none]
      simp
    · rw [found]
      dsimp only
      omega
  · simp

variable (cfg fullDebug) in
theorem length_foldl_appendStat_le (stats : List ReaderStat)
    (nodes : List StatNode) :
    (stats.foldl (appendStat cfg fullDebug) nodes).length ≤
      nodes.length + stats.length := by
  induction stats generalizing nodes with
  | nil => exact Nat.le_refl _
  | cons stat stats induction =>
      have step := length_appendStat_le cfg fullDebug nodes stat
      have rest := induction (appendStat cfg fullDebug nodes stat)
      rw [List.foldl_cons, List.length_cons]
      omega

variable (cfg fullDebug) in
/-- All records are appended, unless full debug takes one for an older one. -/
theorem foldl_appendStat_iff (stats : List ReaderStat)
    (nodes : List StatNode) :
    (stats.foldl (appendStat cfg fullDebug) nodes).map (·.stat) =
        nodes.map (·.stat) ++ stats ↔
      (fullDebug = true →
        (∀ node ∈ nodes, ∀ stat ∈ stats, Apart cfg node.stat stat) ∧
          stats.Pairwise (Apart cfg)) := by
  induction stats generalizing nodes with
  | nil => simp
  | cons stat stats induction =>
      rw [List.foldl_cons]
      by_cases apart : fullDebug = true →
          ∀ node ∈ nodes, Apart cfg node.stat stat
      · rw [appendStat_of_apart apart]
        have more := induction (nodes ++ [{ stat, flag := 0 }])
        rw [List.map_append, List.map_singleton, List.append_assoc,
          List.singleton_append] at more
        rw [more]
        constructor
        · intro later debug
          obtain ⟨across, pairs⟩ := later debug
          constructor
          · intro node member other listed
            rcases List.mem_cons.mp listed with rfl | listed
            · exact apart debug node member
            · exact across node (List.mem_append_left _ member) other listed
          · refine List.pairwise_cons.mpr ⟨?_, pairs⟩
            intro other listed
            exact across _ (List.mem_append_right _ List.mem_cons_self) other
              listed
        · intro all debug
          obtain ⟨across, pairs⟩ := all debug
          obtain ⟨first, rest⟩ := List.pairwise_cons.mp pairs
          refine ⟨?_, rest⟩
          intro node member other listed
          rcases List.mem_append.mp member with old | new
          · exact across node old other (List.mem_cons_of_mem _ listed)
          · rw [List.mem_singleton.mp new]
            exact first other listed
      · constructor
        · -- The record that is taken for an older one is missing in the end.
          intro same
          exfalso
          rw [Classical.not_imp] at apart
          obtain ⟨debug, hit⟩ := apart
          have dropped := length_appendStat_of_not_apart debug hit
          have most := length_foldl_appendStat_le cfg fullDebug stats
            (appendStat cfg fullDebug nodes stat)
          have lengths := congrArg List.length same
          rw [List.length_map, List.length_append, List.length_map,
            List.length_cons] at lengths
          omega
        · intro all
          exfalso
          apply apart
          intro debug node member
          exact (all debug).1 node member stat List.mem_cons_self

/-! ## The file that is written -/

/-- The records of all readers with their labels, in the order of the file. -/
def written (readers : List StatReader) : List (List UInt8 × ReaderStat) :=
  readers.flatMap fun rdr => rdr.records.map fun stat => (rdr.label, stat)

def statLines (readers : List StatReader) : List (List UInt8) :=
  (written readers).map fun record => statLine record.1 record.2

/-- Readers with distinct labels, whose records are all newer than the cleanup
time. -/
structure Saveable (cleanupTime : Int) (readers : List StatReader) : Prop where
  distinct : (readers.map (·.label)).Nodup
  named : ∀ rdr ∈ readers, rdr.label ≠ []
  typed : ∀ rdr ∈ readers, ∀ stat ∈ rdr.records, stat.Typed
  recent : ∀ rdr ∈ readers, ∀ stat ∈ rdr.records,
    cleanupTime ≤ stat.lastReceived

variable {cleanupTime : Int} {readers : List StatReader}

theorem written_cons (first : StatReader) (readers : List StatReader) :
    written (first :: readers) =
      (first.records.map fun stat => (first.label, stat)) ++ written readers :=
  List.flatMap_cons

theorem mem_written {record : List UInt8 × ReaderStat} :
    record ∈ written readers ↔
      ∃ rdr ∈ readers, rdr.label = record.1 ∧ record.2 ∈ rdr.records := by
  obtain ⟨label, stat⟩ := record
  unfold written
  rw [List.mem_flatMap]
  constructor
  · rintro ⟨rdr, member, listed⟩
    obtain ⟨other, inside, same⟩ := List.mem_map.mp listed
    cases same
    exact ⟨rdr, member, rfl, inside⟩
  · rintro ⟨rdr, member, same, inside⟩
    subst same
    exact ⟨rdr, member, List.mem_map_of_mem inside⟩

theorem Saveable.typed_written (saveable : Saveable cleanupTime readers) :
    ∀ record ∈ written readers, record.2.Typed := by
  intro record member
  obtain ⟨rdr, listed, _same, inside⟩ := mem_written.mp member
  exact saveable.typed rdr listed record.2 inside

theorem flatten_statLines (readers : List StatReader) :
    (statLines readers).flatten =
      readers.flatMap fun rdr => rdr.records.flatMap (statLine rdr.label) := by
  induction readers with
  | nil => rfl
  | cons first readers induction =>
      have whole : statLines (first :: readers) =
          first.records.map (statLine first.label) ++ statLines readers := by
        unfold statLines
        rw [written_cons, List.map_append, List.map_map]
        rfl
      rw [whole, List.flatten_append, induction, List.flatMap_cons,
        ← List.flatMap_def]

/-- Nothing is removed, and the file has a line for each record. -/
theorem saveStatToFileThread_eq (saveable : Saveable cleanupTime readers) :
    saveStatToFileThread cleanupTime readers =
      (readers, (statLines readers).flatten) := by
  have same : (readers.map fun rdr : StatReader =>
      { rdr with
        lbStat := rdr.lbStat.filter fun node =>
          cleanupTime ≤ node.stat.lastReceived }) = readers := by
    rw [List.map_congr_left (g := id), List.map_id]
    intro rdr member
    have all : (rdr.lbStat.filter fun node =>
        cleanupTime ≤ node.stat.lastReceived) = rdr.lbStat := by
      rw [List.filter_eq_self]
      intro node listed
      have recent := saveable.recent rdr member node.stat
        (List.mem_map_of_mem listed)
      simpa using recent
    rw [all]
    rfl
  unfold saveStatToFileThread
  rw [same, flatten_statLines]

/-- A reader is written with its own records only. -/
theorem statsFor_written (distinct : (readers.map (·.label)).Nodup) :
    ∀ rdr ∈ readers, statsFor rdr.label (written readers) = rdr.records := by
  induction readers with
  | nil =>
      intro rdr member
      exact absurd member List.not_mem_nil
  | cons first readers induction =>
      rw [List.map_cons, List.nodup_cons] at distinct
      obtain ⟨new, distinct⟩ := distinct
      intro rdr member
      rw [written_cons, statsFor_append]
      rcases List.mem_cons.mp member with rfl | later
      · rw [statsFor_own, statsFor_other, List.append_nil]
        intro record listed same
        obtain ⟨other, inside, label, _⟩ := mem_written.mp listed
        apply new
        rw [← same, ← label]
        exact List.mem_map_of_mem inside
      · rw [induction distinct rdr later, statsFor_other, List.nil_append]
        intro record listed same
        obtain ⟨stat, _inside, rfl⟩ := List.mem_map.mp listed
        have label : first.label = rdr.label := same
        apply new
        rw [label]
        exact List.mem_map_of_mem later

/-! ## The file that is read -/

/-- The file of labels without commas and newlines is read in its lines. -/
theorem lines_statLines (saveable : Saveable cleanupTime readers)
    (plain : ∀ record ∈ written readers, 10 ∉ record.1) :
    (fgetsLines 1024 (statLines readers).flatten).map cstr =
      statLines readers := by
  have lines : ∀ line ∈ statLines readers, IsLine 1024 line := by
    intro line member
    obtain ⟨record, listed, rfl⟩ := List.mem_map.mp member
    obtain ⟨rdr, _member, same, _inside⟩ := mem_written.mp listed
    exact isLine_statLine (saveable.typed_written record listed)
      (same ▸ rdr.short) (plain record listed)
  rw [fgetsLines_flatten lines]
  conv_rhs => rw [← List.map_id (statLines readers)]
  apply List.map_congr_left
  intro line member
  obtain ⟨record, listed, rfl⟩ := List.mem_map.mp member
  obtain ⟨rdr, _member, same, _inside⟩ := mem_written.mp listed
  exact cstr_statLine (saveable.typed_written record listed) (same ▸ rdr.text)

/-- A line is skipped for the first character of its label. -/
theorem kept_statLine {label : List UInt8} {stat : ReaderStat}
    (named : label ≠ []) :
    kept (statLine label stat) = true ↔
      label.head? ≠ some 35 ∧ label.head? ≠ some 59 := by
  obtain ⟨c, rest, rfl⟩ := List.exists_cons_of_ne_nil named
  unfold kept
  rw [head?_statLine named]
  simp

theorem Saveable.named_written (saveable : Saveable cleanupTime readers) :
    ∀ record ∈ written readers, record.1 ≠ [] := by
  intro record member
  obtain ⟨rdr, listed, same, _inside⟩ := mem_written.mp member
  exact same ▸ saveable.named rdr listed

/-- In the newer format each line is read as the record that it was written
for. -/
theorem readRecords_statLines (saveable : Saveable cleanupTime readers)
    (plain : ∀ record ∈ written readers, 44 ∉ record.1 ∧ 10 ∉ record.1) :
    readRecords .new (fgetsLines 1024 (statLines readers).flatten) =
      (written readers).filter fun record =>
        kept (statLine record.1 record.2) := by
  unfold readRecords
  rw [lines_statLines saveable fun record member => (plain record member).2,
    statLines, List.filter_map, List.filterMap_map]
  have read : ∀ record ∈ written readers,
      readNew (statLine record.1 record.2) = some record := by
    intro record member
    obtain ⟨rdr, _member, same, _inside⟩ := mem_written.mp member
    exact readNew_statLine (saveable.typed_written record member)
      (saveable.named_written record member) (same ▸ rdr.short)
      (plain record member).1
  calc
    _ = ((written readers).filter fun record =>
          kept (statLine record.1 record.2)).filterMap some := by
      apply List.filterMap_congr
      intro record member
      exact read record (List.mem_of_mem_filter member)
    _ = _ := List.filterMap_some

/-! ## What the format carries -/

/-- The label of an older line has no blank. -/
theorem blank_not_mem_readOld {line buf : List UInt8} {stat : ReaderStat}
    (read : readOld line = some (buf, stat)) : 32 ∉ buf := by
  have format : ∃ rest, oldFormat = .word :: rest := ⟨_, rfl⟩
  obtain ⟨rest, format⟩ := format
  rw [readOld, format, sscanf] at read
  dsimp only at read
  intro blank
  split at read
  · rename_i fields conversions
    split at conversions
    · exact absurd conversions (by simp)
    · split at read
      · cases read
        cases conversions
        have inside := List.mem_takeWhile_imp blank
        exact absurd inside (by decide)
      · exact absurd read (by simp)
  · exact absurd read (by simp)

/-- The label of a newer line has neither comma nor newline. -/
theorem plain_of_readNew {line buf : List UInt8} {stat : ReaderStat}
    (ends : NewlineLast line) (read : readNew line = some (buf, stat)) :
    44 ∉ buf ∧ 10 ∉ buf := by
  unfold readNew at read
  split at read
  · rename_i label rc caid prid srvid timeAvg ecmCount lastReceived failFactor
      ecmlen tokens
    cases read
    have some : ∃ rest, strtok 44 line = label :: rc :: rest := by
      rw [← List.take_append_drop 10 (strtok 44 line), tokens]
      exact ⟨_, rfl⟩
    obtain ⟨rest, some⟩ := some
    obtain ⟨comma, before, behind, split⟩ := strtok_first some
    constructor
    · exact fun member => comma (List.mem_of_mem_take member)
    · intro newline
      obtain ⟨front, back, inside⟩ :=
        List.append_of_mem (List.mem_of_mem_take newline)
      have last := ends (before ++ front) (back ++ 44 :: behind) (by
        rw [split, inside]
        simp)
      simp at last
  · exact absurd read (by simp)

/-- A label that the newer format carries. -/
structure Carried (label : List UInt8) : Prop where
  comma : 44 ∉ label
  newline : 10 ∉ label
  start : label.head? ≠ some 35 ∧ label.head? ≠ some 59

/-- The labels are carried, and the first one does not look like an older
line. -/
structure Readable (readers : List StatReader) : Prop where
  labels : ∀ rdr ∈ readers, rdr.lbStat ≠ [] → Carried rdr.label
  first : ∀ rdr, readers.find? (fun rdr => rdr.lbStat ≠ []) = some rdr →
    ¬ ascii " rc " <:+: rdr.label

/-- The lines that are not skipped. -/
def keptLines (file : List UInt8) : List (List UInt8) :=
  ((fgetsLines 1024 file).map cstr).filter kept

/-- The file is not taken for an older one. -/
def New (file : List UInt8) : Prop :=
  ∀ first, (keptLines file).head? = some first → fileType first = .new

theorem readFile_of_new {file : List UInt8} (new : New file) :
    readFile file = readRecords .new (fgetsLines 1024 file) := by
  unfold New keptLines at new
  unfold readFile readRecords
  dsimp only
  cases start : (((fgetsLines 1024 file).map cstr).filter kept).head? with
  | none =>
      rw [List.head?_eq_none_iff.mp start]
      rfl
  | some first =>
      dsimp only
      rw [new first start]

theorem mem_readFile {file : List UInt8} {record : List UInt8 × ReaderStat}
    (member : record ∈ readFile file) :
    ∃ first line, (keptLines file).head? = some first ∧
      line ∈ fgetsLines 1024 file ∧
      (fileType first).read (cstr line) = some record := by
  unfold readFile at member
  dsimp only at member
  split at member
  · exact absurd member List.not_mem_nil
  · rename_i first start
    obtain ⟨kept, listed, read⟩ := List.mem_filterMap.mp member
    obtain ⟨line, inside, rfl⟩ :=
      List.mem_map.mp (List.mem_filter.mp listed).1
    exact ⟨first, line, start, inside, read⟩

theorem records_of_ne_nil {rdr : StatReader} (some : rdr.lbStat ≠ []) :
    ∃ stat rest, rdr.records = stat :: rest := by
  apply List.exists_cons_of_ne_nil
  intro none
  exact some (List.map_eq_nil_iff.mp none)

theorem head?_written (readers : List StatReader) :
    (written readers).head? =
      (readers.find? fun rdr => rdr.lbStat ≠ []).bind fun rdr =>
        rdr.records.head?.map fun stat => (rdr.label, stat) := by
  induction readers with
  | nil => rfl
  | cons first readers induction =>
      rw [written_cons]
      by_cases empty : first.lbStat = []
      · have none : first.records = [] := List.map_eq_nil_iff.mpr empty
        rw [none, List.map_nil, List.nil_append, induction,
          List.find?_cons_of_neg (by simpa using empty)]
      · obtain ⟨stat, rest, split⟩ := records_of_ne_nil empty
        rw [List.find?_cons_of_pos (by simpa using empty), Option.bind_some,
          split]
        rfl

theorem mem_written_of_ne_nil {rdr : StatReader} (member : rdr ∈ readers)
    (some : rdr.lbStat ≠ []) :
    ∃ stat, (rdr.label, stat) ∈ written readers := by
  obtain ⟨stat, rest, split⟩ := records_of_ne_nil some
  refine ⟨stat, mem_written.mpr ⟨rdr, member, rfl, ?_⟩⟩
  rw [split]
  exact List.mem_cons_self

theorem Readable.carried (readable : Readable readers) :
    ∀ record ∈ written readers, Carried record.1 := by
  intro record member
  obtain ⟨rdr, listed, same, inside⟩ := mem_written.mp member
  rw [← same]
  apply readable.labels rdr listed
  intro empty
  have none : rdr.records = [] := List.map_eq_nil_iff.mpr empty
  rw [none] at inside
  exact absurd inside List.not_mem_nil

/-- With carried labels no line is skipped. -/
theorem keptLines_statLines (saveable : Saveable cleanupTime readers)
    (carried : ∀ record ∈ written readers, Carried record.1) :
    keptLines (statLines readers).flatten = statLines readers := by
  unfold keptLines
  rw [lines_statLines saveable fun record member =>
    (carried record member).newline, List.filter_eq_self]
  intro line member
  obtain ⟨record, listed, rfl⟩ := List.mem_map.mp member
  exact (kept_statLine (saveable.named_written record listed)).mpr
    (carried record listed).start

theorem readFile_statLines (saveable : Saveable cleanupTime readers)
    (carried : ∀ record ∈ written readers, Carried record.1)
    (new : New (statLines readers).flatten) :
    readFile (statLines readers).flatten = written readers := by
  rw [readFile_of_new new, readRecords_statLines saveable
    fun record member => ⟨(carried record member).comma,
      (carried record member).newline⟩, List.filter_eq_self]
  intro record member
  exact (kept_statLine (saveable.named_written record member)).mpr
    (carried record member).start

theorem fileType_statLine (record : List UInt8 × ReaderStat)
    (typed : record.2.Typed) :
    fileType (statLine record.1 record.2) = .new ↔
      ¬ ascii " rc " <:+: record.1 := by
  unfold fileType
  rw [← infix_statLine_iff record.1 typed]
  split
  · rename_i inside
    exact iff_of_false (by decide) (not_not_intro inside)
  · rename_i outside
    exact iff_of_true rfl outside

/-- The first line shows the type of the file by its label. -/
theorem new_iff (saveable : Saveable cleanupTime readers)
    (carried : ∀ record ∈ written readers, Carried record.1) :
    New (statLines readers).flatten ↔
      ∀ rdr, readers.find? (fun rdr => rdr.lbStat ≠ []) = some rdr →
        ¬ ascii " rc " <:+: rdr.label := by
  unfold New
  rw [keptLines_statLines saveable carried, statLines, List.head?_map,
    head?_written]
  constructor
  · intro new rdr found
    have some : rdr.lbStat ≠ [] := by
      simpa using List.find?_some found
    obtain ⟨stat, rest, split⟩ := records_of_ne_nil some
    have listed : stat ∈ rdr.records := by
      rw [split]
      exact List.mem_cons_self
    have typed := saveable.typed rdr (List.mem_of_find?_eq_some found) _ listed
    have type := new (statLine rdr.label stat) (by
      rw [found, Option.bind_some, split]
      rfl)
    exact (fileType_statLine (rdr.label, stat) typed).mp type
  · intro none first start
    obtain ⟨record, here, rfl⟩ := Option.map_eq_some_iff.mp start
    obtain ⟨rdr, found, pair⟩ := Option.bind_eq_some_iff.mp here
    obtain ⟨stat, head, rfl⟩ := Option.map_eq_some_iff.mp pair
    have typed := saveable.typed rdr (List.mem_of_find?_eq_some found) stat
      (List.mem_of_head? head)
    exact (fileType_statLine (rdr.label, stat) typed).mpr (none rdr found)

/-! ## The round trip -/

/-- The readers have their records again after a restart. -/
def Restored (cfg : LbCfg) (fullDebug : Bool) (cleanupTime : Int)
    (readers : List StatReader) : Prop :=
  (loadStatFromFile cfg fullDebug
    (saveStatToFileThread cleanupTime readers).2
    (readers.map (·.cleared))).map (·.records) =
  readers.map (·.records)

theorem restored_iff_loaded (saveable : Saveable cleanupTime readers) :
    Restored cfg fullDebug cleanupTime readers ↔
      ∀ rdr ∈ readers,
        ((statsFor rdr.label (readFile (statLines readers).flatten)).foldl
          (appendStat cfg fullDebug) []).map (·.stat) = rdr.records := by
  have labels : ((readers.map (·.cleared)).map (·.label)).Nodup := by
    rw [List.map_map]
    exact saveable.distinct
  unfold Restored
  rw [saveStatToFileThread_eq saveable, loadStatFromFile_eq _ labels,
    List.map_map, List.map_map, List.map_inj_left]
  rfl

/-- A restored reader has got records. -/
theorem received (saveable : Saveable cleanupTime readers)
    (restored : Restored cfg fullDebug cleanupTime readers) :
    ∀ record ∈ written readers, ∃ stat,
      (record.1, stat) ∈ readFile (statLines readers).flatten := by
  intro record member
  obtain ⟨rdr, listed, same, inside⟩ := mem_written.mp member
  have loaded := (restored_iff_loaded saveable).mp restored rdr listed
  cases stats : statsFor rdr.label (readFile (statLines readers).flatten) with
  | nil =>
      rw [stats] at loaded
      rw [← loaded] at inside
      exact absurd inside List.not_mem_nil
  | cons stat rest =>
      have here : stat ∈
          statsFor rdr.label (readFile (statLines readers).flatten) := by
        rw [stats]
        exact List.mem_cons_self
      obtain ⟨other, found, rfl⟩ := List.mem_map.mp here
      obtain ⟨read, label⟩ := List.mem_filter.mp found
      have label : other.1 = rdr.label := by simpa using label
      rw [← same, ← label]
      exact ⟨other.2, read⟩

/-- A restored file was not taken for an older one: a label that made it look
so would have a blank, and older lines have none in theirs. -/
theorem new_of_restored (saveable : Saveable cleanupTime readers)
    (restored : Restored cfg fullDebug cleanupTime readers) :
    New (statLines readers).flatten := by
  intro first start
  cases type : fileType first with
  | new => rfl
  | old =>
      exfalso
      have words : ascii " rc " <:+: first := by
        unfold fileType at type
        split at type
        · assumption
        · exact absurd type (by decide)
      have blank : 32 ∈ first := words.subset (by decide)
      obtain ⟨line, listed, rfl⟩ := List.mem_map.mp
        (List.mem_filter.mp (List.mem_of_head? start)).1
      have inFile : 32 ∈ (statLines readers).flatten :=
        mem_of_mem_fgetsLines listed
          ((List.takeWhile_sublist _).subset blank)
      obtain ⟨written, listed, inLine⟩ := List.mem_flatten.mp inFile
      obtain ⟨record, member, rfl⟩ := List.mem_map.mp listed
      have inLabel := blank_mem_label (saveable.typed_written record member)
        inLine
      obtain ⟨stat, read⟩ := received saveable restored record member
      obtain ⟨other, line, also, _listed, read⟩ := mem_readFile read
      rw [start] at also
      cases also
      rw [type] at read
      exact blank_not_mem_readOld read inLabel

theorem plain_of_restored (saveable : Saveable cleanupTime readers)
    (restored : Restored cfg fullDebug cleanupTime readers) :
    ∀ record ∈ written readers, 44 ∉ record.1 ∧ 10 ∉ record.1 := by
  intro record member
  obtain ⟨stat, read⟩ := received saveable restored record member
  obtain ⟨first, line, start, listed, read⟩ := mem_readFile read
  rw [new_of_restored saveable restored first start] at read
  have ends : NewlineLast (cstr line ++ line.dropWhile (· != 0)) := by
    unfold cstr
    rw [List.takeWhile_append_dropWhile]
    exact newlineLast_fgetsLines line listed
  exact plain_of_readNew ends.of_append read

theorem readable_of_restored (saveable : Saveable cleanupTime readers)
    (restored : Restored cfg fullDebug cleanupTime readers) :
    Readable readers := by
  have new := new_of_restored saveable restored
  have plain := plain_of_restored saveable restored
  have carried : ∀ record ∈ written readers, Carried record.1 := by
    intro record member
    obtain ⟨stat, read⟩ := received saveable restored record member
    rw [readFile_of_new new, readRecords_statLines saveable plain] at read
    obtain ⟨_listed, use⟩ := List.mem_filter.mp read
    exact
      { comma := (plain record member).1
        newline := (plain record member).2
        start := (kept_statLine (saveable.named_written record member)).mp
          use }
  constructor
  · intro rdr member some
    obtain ⟨stat, listed⟩ := mem_written_of_ne_nil member some
    exact carried _ listed
  · exact (new_iff saveable carried).mp new

/-- The statistics are restored exactly if the labels of the readers that have
records are carried by the format, and with full debug if no record is taken
for an older one of its reader. -/
theorem restored_iff (saveable : Saveable cleanupTime readers) :
    Restored cfg fullDebug cleanupTime readers ↔
      Readable readers ∧
        (fullDebug = true →
          ∀ rdr ∈ readers, rdr.records.Pairwise (Apart cfg)) := by
  have readIn : Readable readers →
      readFile (statLines readers).flatten = written readers := by
    intro readable
    have carried := readable.carried
    exact readFile_statLines saveable carried
      ((new_iff saveable carried).mpr readable.first)
  have kept : ∀ stats : List ReaderStat,
      (stats.foldl (appendStat cfg fullDebug) []).map (·.stat) = stats ↔
        (fullDebug = true → stats.Pairwise (Apart cfg)) := by
    intro stats
    have all := foldl_appendStat_iff cfg fullDebug stats []
    simpa using all
  have loaded : Readable readers →
      (Restored cfg fullDebug cleanupTime readers ↔
        ∀ rdr ∈ readers,
          fullDebug = true → rdr.records.Pairwise (Apart cfg)) := by
    intro readable
    rw [restored_iff_loaded saveable, readIn readable]
    apply forall₂_congr
    intro rdr member
    rw [statsFor_written saveable.distinct rdr member, kept]
  constructor
  · intro restored
    have readable := readable_of_restored saveable restored
    refine ⟨readable, ?_⟩
    intro debug rdr member
    exact (loaded readable).mp restored rdr member debug
  · rintro ⟨readable, apart⟩
    exact (loaded readable).mpr fun rdr member debug => apart debug rdr member

def defaultCfg : LbCfg :=
  { lbMode := lbFastestReaderFirst, lbNbestReaders := 1
    lbNbestReadersTab := [], lbNfbReaders := 1, lbMinEcmcount := 5
    lbMaxEcmcount := 500, lbReopenSeconds := 900, lbRetrylimit := 800
    lbRetrylimittab := [], lbNoproviderforcaid := [], lbReopenMode := false
    lbMaxReaders := 0, lbAutoBetatunnel := false, preferlocalcards := false
    ccForwardOriginCard := false, sidtab := [] }

def goodStat (srvid : Nat) : ReaderStat :=
  { rc := 0, caid := 0x0500, prid := 0x023800, srvid := srvid, ecmlen := 0x99
    lastReceived := 1300000000, ecmCount := 7, timeAvg := 300
    failFactor := 0 }

def viaccess : StatReader :=
  { label := ascii "viaccess", text := by decide, short := by decide
    lbStat := [{ stat := goodStat 1, flag := 0 },
      { stat := goodStat 2, flag := 0 }] }

theorem typed_goodStat {srvid : Nat} (small : srvid < 2 ^ 16) :
    (goodStat srvid).Typed where
  rc := rfl
  caid := show 0x0500 < 2 ^ 16 by decide
  prid := show 0x023800 < 2 ^ 32 by decide
  srvid := small
  ecmlen := rfl
  lastReceived := rfl
  ecmCount := rfl
  timeAvg := rfl
  failFactor := rfl

theorem saveable_singleton {rdr : StatReader} (named : rdr.label ≠ [])
    (same : rdr.lbStat = viaccess.lbStat) : Saveable 1299900000 [rdr] := by
  have records : rdr.records = [goodStat 1, goodStat 2] := by
    rw [StatReader.records, same]
    rfl
  exact
    { distinct := List.nodup_singleton _
      named := by simpa using named
      typed := by
        have first : (goodStat 1).Typed := typed_goodStat (by decide)
        have second : (goodStat 2).Typed := typed_goodStat (by decide)
        simpa [records] using And.intro first second
      recent := by
        simp only [List.forall_mem_singleton, records]
        decide }

theorem restored_iff_viaccess :
    Restored defaultCfg true 1299900000 [viaccess] := by
  have saveable : Saveable 1299900000 [viaccess] :=
    saveable_singleton (by decide) rfl
  have readable : Readable [viaccess] :=
    { labels := by
        intro rdr member _some
        rw [List.mem_singleton.mp member]
        exact ⟨by decide, by decide, by decide⟩
      first := by
        intro rdr found
        cases found
        decide }
  refine (restored_iff saveable).mpr ⟨readable, ?_⟩
  intro _debug rdr member
  rw [List.mem_singleton.mp member]
  refine List.pairwise_cons.mpr ⟨?_, List.pairwise_singleton _ _⟩
  intro stat listed
  rw [List.mem_singleton.mp listed]
  rfl

/-- A label with a comma, which `chk_reader` does not replace. -/
def comma : StatReader :=
  { viaccess with
    label := ascii "via,ccess", text := by decide, short := by decide }

theorem not_restored_comma :
    Saveable 1299900000 [comma] ∧
      ¬ Restored defaultCfg false 1299900000 [comma] := by
  refine ⟨saveable_singleton (by decide) rfl, ?_⟩
  unfold Restored
  decide +kernel

end Oscam.Stat
