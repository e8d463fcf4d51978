import CanonicalPath.Identity.Policies
import CanonicalPath.Library.Trim
import CanonicalPath.Ports.Payload

/-!
# FileNames — how far a generated file name is safe

`makeSafeFileName` of the gateway and of the bridge, which write the same names.  A name is replaced, trimmed, escaped
where its base is a device, and then cut; only the cut to ten units and fewer is not followed by another look at the
base.

* `SafeFileName` : what a name should be
* `CutToDevice` : an input whose name is cut right behind a device
* `makeSafeFileName_safe_iff` : every other input has a safe name
-/

namespace CanonicalPath

namespace Ports

open CodeUnit Segments Outcome

/-- The part of a file name before its first dot. -/
def fileBase (name : Units) : Units :=
  name.takeWhile (· != chr '.')

structure SafeFileName (maxLength : Int) (name : Units) : Prop where
  ne_nil : name ≠ []
  length_le : (name.length : Int) ≤ maxLength
  plain : ∀ c ∈ ['/', '\\', ':', '\t', '\r', '\n'], chr c ∉ name
  last : name.getLast? ≠ some (chr '.') ∧ name.getLast? ≠ some (chr ' ')
  base : ¬IsDeviceName (fileBase name)

/-! ## Inputs that are cut to a device -/

/-- The units that no name keeps at its ends. -/
def isSoft (a : UInt16) : Bool :=
  decide (a ∈ (lit "/\\:\t\n\r ._-" : Units))

/-- The units of a gap where a run of unsafe units is one dash. -/
def gapLength (previousUnsafe : Bool) : Units → Nat
  | [] => 0
  | a :: gap =>
      if Unity.isUnsafeFileNameChar a then
        (if previousUnsafe then 0 else 1) + gapLength true gap
      else
        1 + gapLength false gap

/-- The room behind a device: its gap, and the dash that escapes a device in front of a dot.  A gap at the end of the
input is trimmed. -/
def room (gap rest : Units) : Nat :=
  if rest = [] then 0 else gapLength false gap + if gap.head? = some (chr '.') then 1 else 0

/-- An input that shows a device first, and a limit that falls behind the device and not behind its gap. -/
structure DeviceFront (input : Units) (maxLength : Int) (front device gap rest : Units) : Prop where
  input_eq : input = front ++ (device ++ (gap ++ rest))
  front_soft : ∀ a ∈ front, isSoft a = true
  isDeviceName : IsDeviceName device
  gap_soft : ∀ a ∈ gap, isSoft a = true
  rest_hard : ∀ a ∈ rest.head?, isSoft a = false
  device_le : (device.length : Int) ≤ maxLength
  le_room : maxLength ≤ device.length + room gap rest

/-- The name of the input is cut right behind a device. -/
def CutToDevice (input : Units) (maxLength : Int) : Prop :=
  maxLength ≤ 10 ∧ ∃ front device gap rest, DeviceFront input maxLength front device gap rest

/-! ## Units -/

theorem isSoft_eq (a : UInt16) : isSoft a = (Unity.isUnsafeFileNameChar a || Unity.isTrimmed a) := by
  rw [Bool.eq_iff_iff, isSoft, decide_eq_true_eq, Unity.isUnsafeFileNameChar, Unity.isTrimmed]
  simp [lit, or_assoc]

theorem not_unsafe_of_hard {a : UInt16} (h : isSoft a = false) : Unity.isUnsafeFileNameChar a = false := by
  rw [isSoft_eq, Bool.or_eq_false_iff] at h
  exact h.1

theorem not_trimmed_of_hard {a : UInt16} (h : isSoft a = false) : Unity.isTrimmed a = false := by
  rw [isSoft_eq, Bool.or_eq_false_iff] at h
  exact h.2

theorem ne_dot_of_not_trimmed {a : UInt16} (h : Unity.isTrimmed a = false) : a ≠ chr '.' := by
  rintro rfl
  exact absurd h (by decide)

theorem unsafe_iff {a : UInt16} : Unity.isUnsafeFileNameChar a = true ↔
    ∃ c ∈ ['/', '\\', ':', '\t', '\r', '\n'], a = chr c := by
  rw [Unity.isUnsafeFileNameChar]
  simp
  tauto

/-! ## Devices -/

theorem isDeviceName_ne_nil {device : Units} (h : IsDeviceName device) : device ≠ [] := by
  rintro rfl
  exact absurd h (by decide)

/-- A device is spelled with letters and digits. -/
theorem hard_of_mem_device {device : Units} (h : IsDeviceName device) {a : UInt16} (ha : a ∈ device) :
    isSoft a = false := by
  rw [Bool.eq_false_iff]
  intro hsoft
  have hpunctuation : (lit "/\\:\t\n\r ._-" : Units).all (fun b => !Go.isDeviceCode (code (upper b))) = true := by
    decide
  have hforeign := List.all_eq_true.1 hpunctuation a (of_decide_eq_true hsoft)
  have hcode := Go.isDeviceCode_of_isReservedDeviceBase (isReservedDeviceBase_iff.2 h) (upper a) (List.mem_map_of_mem ha)
  rw [hcode] at hforeign
  exact Bool.false_ne_true hforeign

theorem lit_deviceNames_prefix : ∀ device ∈ deviceNames, ∀ longer ∈ deviceNames,
    (lit device : Units) <+: lit longer → (lit device : Units).length = (lit longer : Units).length := by
  decide

/-- No device goes on as another one. -/
theorem eq_nil_of_isDeviceName_append {device tail : Units} (h : IsDeviceName device)
    (hlonger : IsDeviceName (device ++ tail)) : tail = [] := by
  obtain ⟨name, hname, hdevice⟩ := h
  obtain ⟨longer, hmem, happend⟩ := hlonger
  have hfront : (lit name : Units) <+: lit longer := by
    rw [← hdevice, ← happend, List.map_append]
    exact List.prefix_append _ _
  have hlength := lit_deviceNames_prefix name hname longer hmem hfront
  rw [← hdevice, ← happend, List.length_map, List.length_map, List.length_append] at hlength
  rw [← List.length_eq_zero_iff]
  omega

theorem fileBase_device {device : Units} (h : IsDeviceName device) : fileBase device = device := by
  apply List.takeWhile_eq_self_iff.2
  intro a ha
  rw [bne_iff_ne]
  exact ne_dot_of_not_trimmed (not_trimmed_of_hard (hard_of_mem_device h ha))

/-- A base ends at a dot. -/
theorem fileBase_device_dot {device : Units} (h : IsDeviceName device) (tail : Units) :
    fileBase (device ++ chr '.' :: tail) = device := by
  apply Trim.takeWhile_append_cons
  · intro a ha
    rw [bne_iff_ne]
    exact ne_dot_of_not_trimmed (not_trimmed_of_hard (hard_of_mem_device h ha))
  · exact bne_self_eq_false _

/-- A device that goes on before a dot is none. -/
theorem not_isDeviceName_fileBase {device : Units} (h : IsDeviceName device) {a : UInt16} (ha : a ≠ chr '.')
    (tail : Units) : ¬IsDeviceName (fileBase (device ++ a :: tail)) := by
  have hbase : fileBase (device ++ a :: tail) = device ++ a :: fileBase tail := by
    rw [fileBase, List.takeWhile_append_of_pos, List.takeWhile_cons_of_pos (p := (· != chr '.')) (bne_iff_ne.2 ha)]
    · rfl
    · intro b hb
      rw [bne_iff_ne]
      exact ne_dot_of_not_trimmed (not_trimmed_of_hard (hard_of_mem_device h hb))
  rw [hbase]
  intro hlonger
  exact List.cons_ne_nil _ _ (eq_nil_of_isDeviceName_append h hlonger)

/-! ## Replacement -/

theorem replace_trimmed {gap : Units} (h : ∀ a ∈ gap, isSoft a = true) (previousUnsafe : Bool) :
    ∀ a ∈ Unity.replaceUnsafeFileNameChars previousUnsafe gap, Unity.isTrimmed a = true := by
  induction gap generalizing previousUnsafe with
  | nil =>
      exact fun a ha => absurd ha List.not_mem_nil
  | cons b gap ih =>
      obtain ⟨hb, hgap⟩ := List.forall_mem_cons.1 h
      rw [Unity.replaceUnsafeFileNameChars]
      split_ifs with hunsafe hprevious
      · exact ih hgap true
      · exact List.forall_mem_cons.2 ⟨by decide, ih hgap true⟩
      · rw [isSoft_eq, Bool.or_eq_true] at hb
        exact List.forall_mem_cons.2 ⟨hb.resolve_left hunsafe, ih hgap false⟩

theorem length_replace (gap : Units) (previousUnsafe : Bool) :
    (Unity.replaceUnsafeFileNameChars previousUnsafe gap).length = gapLength previousUnsafe gap := by
  induction gap generalizing previousUnsafe with
  | nil =>
      rfl
  | cons b gap ih =>
      rw [Unity.replaceUnsafeFileNameChars, gapLength]
      split_ifs
      · rw [ih, Nat.zero_add]
      · rw [List.length_cons, ih, Nat.add_comm]
      · rw [List.length_cons, ih, Nat.add_comm]

theorem replace_plain (input : Units) (previousUnsafe : Bool) :
    ∀ a ∈ Unity.replaceUnsafeFileNameChars previousUnsafe input, Unity.isUnsafeFileNameChar a = false := by
  induction input generalizing previousUnsafe with
  | nil =>
      exact fun a ha => absurd ha List.not_mem_nil
  | cons b input ih =>
      rw [Unity.replaceUnsafeFileNameChars]
      split_ifs with hunsafe hprevious
      · exact ih true
      · exact List.forall_mem_cons.2 ⟨by decide, ih true⟩
      · exact List.forall_mem_cons.2 ⟨Bool.eq_false_iff.2 hunsafe, ih false⟩

/-- A safe unit ends whatever run came before it. -/
theorem replace_append_cons (s : Units) {a : UInt16} (ha : Unity.isUnsafeFileNameChar a = false) (t : Units)
    (previousUnsafe : Bool) :
    Unity.replaceUnsafeFileNameChars previousUnsafe (s ++ a :: t) =
      Unity.replaceUnsafeFileNameChars previousUnsafe s ++ a :: Unity.replaceUnsafeFileNameChars false t := by
  induction s generalizing previousUnsafe with
  | nil =>
      have hsafe : ¬Unity.isUnsafeFileNameChar a = true := Bool.eq_false_iff.1 ha
      rw [List.nil_append, Unity.replaceUnsafeFileNameChars, Unity.replaceUnsafeFileNameChars, if_neg hsafe, List.nil_append]
  | cons b s ih =>
      rw [List.cons_append, Unity.replaceUnsafeFileNameChars, Unity.replaceUnsafeFileNameChars]
      split_ifs
      · exact ih true
      · rw [ih, List.cons_append]
      · rw [ih, List.cons_append]

theorem replace_append_of_hard {s : Units} (hs : ∀ a ∈ s, isSoft a = false) (t : Units) :
    Unity.replaceUnsafeFileNameChars false (s ++ t) = s ++ Unity.replaceUnsafeFileNameChars false t := by
  induction s with
  | nil =>
      rfl
  | cons b s ih =>
      obtain ⟨hb, hs⟩ := List.forall_mem_cons.1 hs
      rw [List.cons_append, Unity.replaceUnsafeFileNameChars, if_neg, ih hs, List.cons_append]
      rw [not_unsafe_of_hard hb]
      exact Bool.false_ne_true

/-- What shows hard units first did so before the replacement. -/
theorem exists_of_replace_eq_append {body device t : Units} (hdevice : ∀ a ∈ device, isSoft a = false)
    (h : Unity.replaceUnsafeFileNameChars false body = device ++ t) : ∃ w, body = device ++ w := by
  induction device generalizing body with
  | nil =>
      exact ⟨body, rfl⟩
  | cons d device ih =>
      obtain ⟨hd, hdevice⟩ := List.forall_mem_cons.1 hdevice
      cases body with
      | nil =>
          cases h
      | cons b body =>
          rw [Unity.replaceUnsafeFileNameChars] at h
          by_cases hunsafe : Unity.isUnsafeFileNameChar b = true
          · -- an unsafe unit would show as a dash
            rw [if_pos hunsafe, if_neg Bool.false_ne_true, List.cons_append, List.cons.injEq] at h
            rw [← h.1] at hd
            exact absurd hd (by decide)
          · rw [if_neg hunsafe, List.cons_append, List.cons.injEq] at h
            obtain ⟨w, rfl⟩ := ih hdevice h.2
            exact ⟨w, by rw [h.1, List.cons_append]⟩

/-! ## The trimmed name -/

/-- The input after replacement, between its boundaries. -/
def trimmedName (input : Units) : Units :=
  ((Unity.replaceUnsafeFileNameChars false input).dropWhile Unity.isTrimmed).rdropWhile Unity.isTrimmed

theorem trimmedName_of_soft {input : Units} (h : ∀ a ∈ input, isSoft a = true) : trimmedName input = [] := by
  rw [trimmedName, List.dropWhile_eq_nil_iff.2 (replace_trimmed h false), List.rdropWhile_nil]

/-- What is soft in front goes. -/
theorem trimmedName_front {front : Units} (hfront : ∀ a ∈ front, isSoft a = true) {a : UInt16} (ha : isSoft a = false)
    (tail : Units) :
    trimmedName (front ++ a :: tail) = (Unity.replaceUnsafeFileNameChars false (a :: tail)).rdropWhile Unity.isTrimmed := by
  have hkeep : Unity.replaceUnsafeFileNameChars false (a :: tail) = a :: Unity.replaceUnsafeFileNameChars false tail :=
    replace_append_cons [] (not_unsafe_of_hard ha) tail false
  rw [trimmedName, replace_append_cons front (not_unsafe_of_hard ha) tail false, hkeep,
    Trim.dropWhile_append_cons (replace_trimmed hfront false) (not_trimmed_of_hard ha)]

theorem trimmedName_device {front device : Units} (hfront : ∀ a ∈ front, isSoft a = true) (hdevice : IsDeviceName device)
    (w : Units) :
    trimmedName (front ++ (device ++ w)) =
      (device ++ Unity.replaceUnsafeFileNameChars false w).rdropWhile Unity.isTrimmed := by
  have hhard : ∀ a ∈ device, isSoft a = false := fun a ha => hard_of_mem_device hdevice ha
  rw [← replace_append_of_hard hhard]
  cases device with
  | nil =>
      exact absurd rfl (isDeviceName_ne_nil hdevice)
  | cons d device =>
      exact trimmedName_front hfront (hhard d List.mem_cons_self) (device ++ w)

/-- A gap at the end goes. -/
theorem trimmedName_end {front device gap : Units} (hfront : ∀ a ∈ front, isSoft a = true)
    (hdevice : IsDeviceName device) (hgap : ∀ a ∈ gap, isSoft a = true) :
    trimmedName (front ++ (device ++ gap)) = device := by
  rw [trimmedName_device hfront hdevice, Trim.rdropWhile_append_of_all device (replace_trimmed hgap false)]
  apply Trim.rdropWhile_of_none
  exact fun a ha => not_trimmed_of_hard (hard_of_mem_device hdevice ha)

/-- A gap in front of a hard unit stays. -/
theorem trimmedName_gap {front device gap : Units} (hfront : ∀ a ∈ front, isSoft a = true)
    (hdevice : IsDeviceName device) {a : UInt16} (ha : isSoft a = false) (rest : Units) :
    ∃ tail, trimmedName (front ++ (device ++ (gap ++ a :: rest))) =
      device ++ (Unity.replaceUnsafeFileNameChars false gap ++ a :: tail) := by
  obtain ⟨tail, htail, -⟩ := Trim.exists_rdropWhile_append_cons (device ++ Unity.replaceUnsafeFileNameChars false gap)
    (not_trimmed_of_hard ha) (Unity.replaceUnsafeFileNameChars false rest)
  refine ⟨tail, ?_⟩
  rw [trimmedName_device hfront hdevice, replace_append_cons gap (not_unsafe_of_hard ha), ← List.append_assoc, htail,
    List.append_assoc]

/-! ## The escape -/

theorem escape_eq (value : Units) : Unity.escapeReservedDeviceName value =
    if IsDeviceName (fileBase value) then
      fileBase value ++ lit "-" ++ value.dropWhile (· != chr '.')
    else
      value := by
  rw [escapeReserved_eq, TS.escapeReservedWin32Component, isReservedDeviceBase_eq]
  by_cases hdevice : IsDeviceName (fileBase value)
  · rw [if_pos hdevice]
    exact if_pos (isReservedDeviceBase_iff.2 hdevice)
  · rw [if_neg hdevice]
    exact if_neg fun h => hdevice (isReservedDeviceBase_iff.1 h)

theorem guardedName_of_ne_nil {input : Units} (h : trimmedName input ≠ []) :
    Unity.guardedName input = Unity.escapeReservedDeviceName (trimmedName input) := by
  rw [Unity.guardedName]
  exact congrArg Unity.escapeReservedDeviceName (if_neg fun hlength => h (List.length_eq_zero_iff.1 hlength))

theorem guardedName_of_nil {input : Units} (h : trimmedName input = []) : Unity.guardedName input = lit "file" := by
  have hempty : (trimmedName input).length = 0 := List.length_eq_zero_iff.2 h
  calc
    Unity.guardedName input = Unity.escapeReservedDeviceName (lit "file") :=
      congrArg Unity.escapeReservedDeviceName (if_pos hempty)
    _ = lit "file" := by decide

/-- A name behind a device: what may be trimmed there, and what comes next. -/
structure Behind (dashed tail : Units) : Prop where
  dashed_trimmed : ∀ a ∈ dashed, Unity.isTrimmed a = true
  tail_ne_nil : tail ≠ []
  /-- One more unit that is trimmed, at the end, or one that is not. -/
  tail_hard : tail.length = 1 ∨ ∃ a more, tail = a :: more ∧ Unity.isTrimmed a = false
  head_ne_dot : (dashed ++ tail).head? ≠ some (chr '.')

/-- A gap that begins with no dot shows none in front, whatever its units are replaced by. -/
theorem head?_replace_ne_dot {gap : Units} (hdot : gap.head? ≠ some (chr '.')) {a : UInt16} (ha : isSoft a = false)
    (tail : Units) :
    (Unity.replaceUnsafeFileNameChars false gap ++ a :: tail).head? ≠ some (chr '.') := by
  cases gap with
  | nil =>
      intro hsome
      exact ne_dot_of_not_trimmed (not_trimmed_of_hard ha) (Option.some.inj hsome)
  | cons b gap =>
      rw [Unity.replaceUnsafeFileNameChars]
      by_cases hunsafe : Unity.isUnsafeFileNameChar b = true
      · rw [if_pos hunsafe, if_neg Bool.false_ne_true]
        intro hsome
        exact absurd (Option.some.inj hsome) (by decide)
      · rw [if_neg hunsafe]
        exact hdot

/-- The name of an input that shows a device. -/
theorem guardedName_device {front device gap rest : Units} (hfront : ∀ a ∈ front, isSoft a = true)
    (hdevice : IsDeviceName device) (hgap : ∀ a ∈ gap, isSoft a = true) (hrest : ∀ a ∈ rest.head?, isSoft a = false) :
    ∃ dashed tail, Unity.guardedName (front ++ (device ++ (gap ++ rest))) = device ++ (dashed ++ tail) ∧
      dashed.length = room gap rest ∧ Behind dashed tail := by
  cases rest with
  | nil =>
      -- nothing but the device is left, and it is escaped
      have hname : trimmedName (front ++ (device ++ (gap ++ []))) = device := by
        rw [List.append_nil]
        exact trimmedName_end hfront hdevice hgap
      refine ⟨[], lit "-", ?_, rfl, ⟨fun a ha => absurd ha List.not_mem_nil, List.cons_ne_nil _ _, .inl rfl, by decide⟩⟩
      have hrest : device.dropWhile (· != chr '.') = [] := by
        have hsplit := List.takeWhile_append_dropWhile (p := (· != chr '.')) (l := device)
        have hbase := fileBase_device hdevice
        rw [fileBase] at hbase
        rw [hbase] at hsplit
        exact List.append_cancel_left (hsplit.trans (List.append_nil device).symm)
      rw [guardedName_of_ne_nil (by rw [hname]; exact isDeviceName_ne_nil hdevice), hname, escape_eq,
        fileBase_device hdevice, if_pos hdevice, hrest, List.append_nil, List.nil_append]
  | cons a rest =>
      have ha : isSoft a = false := hrest a rfl
      obtain ⟨tail, hname⟩ := @trimmedName_gap front device gap hfront hdevice a ha rest
      have hne : trimmedName (front ++ (device ++ (gap ++ a :: rest))) ≠ [] := by
        rw [hname]
        exact List.append_ne_nil_of_left_ne_nil (isDeviceName_ne_nil hdevice) _
      rw [guardedName_of_ne_nil hne, hname, escape_eq, room, if_neg (List.cons_ne_nil a rest)]
      by_cases hdot : gap.head? = some (chr '.')
      · -- the base is the device: a dash in front of the gap
        obtain ⟨gap', rfl⟩ := List.head?_eq_some_iff.1 hdot
        have hgap' : Unity.replaceUnsafeFileNameChars false (chr '.' :: gap') =
            chr '.' :: Unity.replaceUnsafeFileNameChars false gap' :=
          replace_append_cons [] (by decide) gap' false
        rw [if_pos hdot, hgap', List.cons_append, fileBase_device_dot hdevice, if_pos hdevice]
        have hsuffix : (device ++ chr '.' :: (Unity.replaceUnsafeFileNameChars false gap' ++ a :: tail)).dropWhile (· != chr '.') =
            chr '.' :: (Unity.replaceUnsafeFileNameChars false gap' ++ a :: tail) := by
          apply Trim.dropWhile_append_cons
          · intro b hb
            rw [bne_iff_ne]
            exact ne_dot_of_not_trimmed (not_trimmed_of_hard (hard_of_mem_device hdevice hb))
          · exact bne_self_eq_false _
        refine ⟨chr '-' :: Unity.replaceUnsafeFileNameChars false (chr '.' :: gap'), a :: tail, ?_, ?_, ?_⟩
        · rw [hsuffix, hgap', List.append_assoc]
          rfl
        · rw [List.length_cons, length_replace]
        · refine ⟨List.forall_mem_cons.2 ⟨by decide, replace_trimmed hgap false⟩, List.cons_ne_nil _ _,
            .inr ⟨a, tail, rfl, not_trimmed_of_hard ha⟩, ?_⟩
          intro hsome
          exact absurd (Option.some.inj hsome) (by decide)
      · -- the device is only the beginning of the base
        have hhead := head?_replace_ne_dot hdot ha tail
        have hbase : ¬IsDeviceName (fileBase (device ++ (Unity.replaceUnsafeFileNameChars false gap ++ a :: tail))) := by
          cases hlist : Unity.replaceUnsafeFileNameChars false gap ++ a :: tail with
          | nil =>
              exact absurd hlist (List.append_ne_nil_of_right_ne_nil _ (List.cons_ne_nil a tail))
          | cons b more =>
              rw [hlist] at hhead
              exact not_isDeviceName_fileBase hdevice (fun hb => hhead (congrArg some hb)) more
        rw [if_neg hdot, if_neg hbase]
        exact ⟨_, a :: tail, rfl, length_replace gap false, replace_trimmed hgap false, List.cons_ne_nil _ _,
          .inr ⟨a, tail, rfl, not_trimmed_of_hard ha⟩, hhead⟩

/-! ## Generated names -/

/-- What holds of a name before it is cut. -/
structure Generated (name : Units) : Prop where
  head_hard : ∃ a tail, name = a :: tail ∧ Unity.isTrimmed a = false
  plain : ∀ a ∈ name, Unity.isUnsafeFileNameChar a = false
  last : name.getLast? ≠ some (chr '.') ∧ name.getLast? ≠ some (chr ' ')
  base : ¬IsDeviceName (fileBase name)

theorem last_of_not_trimmed {name : Units} (h : ∀ a, name.getLast? = some a → Unity.isTrimmed a = false) :
    name.getLast? ≠ some (chr '.') ∧ name.getLast? ≠ some (chr ' ') := by
  constructor
  · intro hdot
    exact absurd (h _ hdot) (by decide)
  · intro hspace
    exact absurd (h _ hspace) (by decide)

theorem trimmedName_plain (input : Units) : ∀ a ∈ trimmedName input, Unity.isUnsafeFileNameChar a = false := by
  intro a ha
  apply replace_plain input false
  exact (List.dropWhile_sublist Unity.isTrimmed).subset ((List.rdropWhile_prefix _ _).subset ha)

/-- A trimmed name begins with a unit that stays. -/
theorem trimmedName_head {input : Units} (h : trimmedName input ≠ []) :
    ∃ a tail, trimmedName input = a :: tail ∧ Unity.isTrimmed a = false := by
  rcases Trim.all_or_exists_first Unity.isTrimmed (Unity.replaceUnsafeFileNameChars false input) with
    hall | ⟨front, a, tail, hlist, hfront, ha⟩
  · refine absurd ?_ h
    rw [trimmedName, List.dropWhile_eq_nil_iff.2 hall, List.rdropWhile_nil]
  · obtain ⟨more, hmore, -⟩ := Trim.exists_rdropWhile_append_cons [] ha tail
    refine ⟨a, more, ?_, ha⟩
    rw [trimmedName, hlist, Trim.dropWhile_append_cons hfront ha]
    exact hmore

theorem file_plain : ∀ a ∈ (lit "file" : Units), Unity.isUnsafeFileNameChar a = false := by
  have hall : (lit "file" : Units).all (fun a => !Unity.isUnsafeFileNameChar a) = true := by decide
  intro a ha
  rw [← Bool.not_eq_true']
  exact List.all_eq_true.1 hall a ha

theorem generated_file : Generated (lit "file") where
  head_hard := ⟨chr 'f', lit "ile", rfl, by decide⟩
  plain := file_plain
  last := by decide
  base := by decide

/-- The escape of a trimmed name. -/
theorem generated_escape {value : Units} (hhead : ∃ a tail, value = a :: tail ∧ Unity.isTrimmed a = false)
    (hplain : ∀ a ∈ value, Unity.isUnsafeFileNameChar a = false)
    (hlast : ∀ a, value.getLast? = some a → Unity.isTrimmed a = false) :
    Generated (Unity.escapeReservedDeviceName value) := by
  rw [escape_eq]
  by_cases hdevice : IsDeviceName (fileBase value)
  swap
  · rw [if_neg hdevice]
    exact ⟨hhead, hplain, last_of_not_trimmed hlast, hdevice⟩
  have hsplit : fileBase value ++ value.dropWhile (· != chr '.') = value := List.takeWhile_append_dropWhile
  rw [if_pos hdevice]
  -- the base keeps its first unit, and the suffix its last one
  refine ⟨?_, ?_, ?_, ?_⟩
  · cases hbase : fileBase value with
    | nil =>
        exact absurd hbase (isDeviceName_ne_nil hdevice)
    | cons b base =>
        refine ⟨b, base ++ lit "-" ++ value.dropWhile (· != chr '.'), rfl, not_trimmed_of_hard (hard_of_mem_device hdevice ?_)⟩
        rw [hbase]
        exact List.mem_cons_self
  · intro a ha
    rw [List.append_assoc, List.mem_append, List.mem_append] at ha
    rcases ha with hbase | hdash | hsuffix
    · exact hplain a (hsplit ▸ List.mem_append_left _ hbase)
    · rw [List.mem_singleton.1 hdash]
      decide
    · exact hplain a (hsplit ▸ List.mem_append_right _ hsuffix)
  · cases hsuffix : value.dropWhile (· != chr '.') with
    | nil =>
        have hdash : (fileBase value ++ lit "-").getLast? = some (chr '-') := List.getLast?_concat
        rw [List.append_nil, hdash]
        decide
    | cons b suffix =>
        apply last_of_not_trimmed
        intro a ha
        apply hlast a
        rw [← hsplit, hsuffix]
        rw [List.getLast?_append] at ha ⊢
        exact ha
  · rw [List.append_assoc]
    exact not_isDeviceName_fileBase hdevice (by decide) _

theorem generated_guardedName (input : Units) : Generated (Unity.guardedName input) := by
  by_cases hnil : trimmedName input = []
  · rw [guardedName_of_nil hnil]
    exact generated_file
  · rw [guardedName_of_ne_nil hnil]
    apply generated_escape (trimmedName_head hnil) (trimmedName_plain input)
    intro a ha
    exact Trim.getLast?_rdropWhile ha

/-! ## The cut -/

/-- A cut name: a front of the name, from which only trimmed units are gone. -/
structure CutName (name cut : Units) (n : Nat) : Prop where
  ne_nil : cut ≠ []
  length_le : cut.length ≤ n
  front : cut <+: name
  last : ∀ a, cut.getLast? = some a → Unity.isTrimmed a = false
  cut_eq : cut = (name.take n).rdropWhile Unity.isTrimmed

theorem cutName_trimSafe {name : Units} (h : Generated name) {n : Nat} (hn : 0 < n) :
    CutName name (Unity.trimSafe (name.take n)) n := by
  obtain ⟨a, tail, rfl, ha⟩ := h.head_hard
  obtain ⟨k, rfl⟩ : ∃ k, n = k + 1 := ⟨n - 1, by omega⟩
  obtain ⟨more, hmore, hle⟩ := Trim.exists_rdropWhile_append_cons [] ha (tail.take k)
  have htake : ((a :: tail).take (k + 1)).rdropWhile Unity.isTrimmed = a :: more := hmore
  have hcut : Unity.trimSafe ((a :: tail).take (k + 1)) = ((a :: tail).take (k + 1)).rdropWhile Unity.isTrimmed := by
    apply if_neg
    rw [htake, List.length_cons]
    exact Nat.succ_ne_zero _
  have hfront : ((a :: tail).take (k + 1)).rdropWhile Unity.isTrimmed <+: (a :: tail).take (k + 1) :=
    List.rdropWhile_prefix _ _
  rw [hcut]
  refine ⟨?_, ?_, hfront.trans (List.take_prefix _ _), fun b hb => Trim.getLast?_rdropWhile hb, rfl⟩
  · rw [htake]
    exact List.cons_ne_nil a more
  · exact Nat.le_trans hfront.length_le (List.length_take_le _ _)

/-- A name behind a device is cut to the device when the cut falls into what is trimmed, and then only. -/
theorem isDeviceName_cut_iff {device dashed tail : Units} (hdevice : IsDeviceName device) (hbehind : Behind dashed tail)
    {cut : Units} {n : Nat} (hn : n < (device ++ (dashed ++ tail)).length)
    (hcut : CutName (device ++ (dashed ++ tail)) cut n) :
    IsDeviceName (fileBase cut) ↔ device.length ≤ n ∧ n ≤ device.length + dashed.length := by
  have hhard : ∀ a ∈ device, Unity.isTrimmed a = false := fun a ha => not_trimmed_of_hard (hard_of_mem_device hdevice ha)
  have hcut_eq := hcut.cut_eq
  by_cases hshort : n < device.length
  · -- a part of a device is none
    have htake : (device ++ (dashed ++ tail)).take n = device.take n := List.take_append_of_le_length (Nat.le_of_lt hshort)
    rw [htake, Trim.rdropWhile_of_none fun a ha => hhard a (List.mem_of_mem_take ha)] at hcut_eq
    refine iff_of_false ?_ fun h => absurd h.1 (Nat.not_le_of_lt hshort)
    have hbase : fileBase (device.take n) = device.take n := by
      apply List.takeWhile_eq_self_iff.2
      intro a ha
      rw [bne_iff_ne]
      exact ne_dot_of_not_trimmed (hhard a (List.mem_of_mem_take ha))
    rw [hcut_eq, hbase]
    intro hpart
    have hnil : device.drop n = [] := by
      apply eq_nil_of_isDeviceName_append hpart
      rw [List.take_append_drop]
      exact hdevice
    exact absurd (List.drop_eq_nil_iff.1 hnil) (Nat.not_le_of_lt hshort)
  have hle : device.length ≤ n := Nat.le_of_not_lt hshort
  have htake : (device ++ (dashed ++ tail)).take n = device ++ (dashed ++ tail).take (n - device.length) := by
    rw [List.take_append, List.take_of_length_le hle]
  by_cases hlong : n ≤ device.length + dashed.length
  · -- what is behind the device is trimmed
    have hgap : (dashed ++ tail).take (n - device.length) = dashed.take (n - device.length) :=
      List.take_append_of_le_length (by omega)
    rw [htake, hgap, Trim.rdropWhile_append_of_all device fun a ha => hbehind.dashed_trimmed a (List.mem_of_mem_take ha),
      Trim.rdropWhile_of_none hhard] at hcut_eq
    refine iff_of_true ?_ ⟨hle, hlong⟩
    rw [hcut_eq, fileBase_device hdevice]
    exact hdevice
  · -- the first unit that stays goes on with the device
    refine iff_of_false ?_ fun h => hlong h.2
    rw [List.length_append, List.length_append] at hn
    rcases hbehind.tail_hard with hone | ⟨a, more, rfl, ha⟩
    · omega
    obtain ⟨k, hk⟩ : ∃ k, n - device.length = dashed.length + (k + 1) := ⟨n - device.length - dashed.length - 1, by omega⟩
    obtain ⟨u, hu, -⟩ := Trim.exists_rdropWhile_append_cons (device ++ dashed) ha (more.take k)
    have hname : cut = device ++ (dashed ++ a :: u) := by
      rw [hcut_eq, htake, hk, List.take_length_add_append, List.take_succ_cons, ← List.append_assoc, hu, List.append_assoc]
    have hhead := hbehind.head_ne_dot
    rw [hname]
    cases dashed with
    | nil =>
        exact not_isDeviceName_fileBase hdevice (ne_dot_of_not_trimmed ha) u
    | cons b dashed =>
        exact not_isDeviceName_fileBase hdevice (fun hb => hhead (congrArg some hb)) (dashed ++ a :: u)

/-- A name of a device shows where it stood in the input. -/
theorem exists_deviceFront {input device u : Units} (hdevice : IsDeviceName device)
    (h : trimmedName input = device ++ u) :
    ∃ front gap rest, input = front ++ (device ++ (gap ++ rest)) ∧ (∀ a ∈ front, isSoft a = true) ∧
      (∀ a ∈ gap, isSoft a = true) ∧ ∀ a ∈ rest.head?, isSoft a = false := by
  rcases Trim.all_or_exists_first isSoft input with hsoft | ⟨front, a, tail, rfl, hfront, ha⟩
  · rw [trimmedName_of_soft hsoft] at h
    exact absurd (List.append_eq_nil_iff.1 h.symm).1 (isDeviceName_ne_nil hdevice)
  rw [trimmedName_front hfront ha] at h
  obtain ⟨t, ht, -⟩ := Trim.exists_eq_rdropWhile_append Unity.isTrimmed (Unity.replaceUnsafeFileNameChars false (a :: tail))
  rw [h, List.append_assoc] at ht
  obtain ⟨w, hw⟩ := exists_of_replace_eq_append (fun b hb => hard_of_mem_device hdevice hb) ht
  rw [hw]
  -- the gap reaches to the next hard unit, or to the end
  rcases Trim.all_or_exists_first isSoft w with hgap | ⟨gap, b, rest, rfl, hgap, hb⟩
  · refine ⟨front, w, [], by rw [List.append_nil], hfront, hgap, ?_⟩
    exact fun b hb => absurd hb (Option.not_mem_none b)
  · refine ⟨front, gap, b :: rest, rfl, hfront, hgap, ?_⟩
    intro c hc
    rw [← Option.some.inj hc]
    exact hb

/-- A device at the front of a name was one in the trimmed input. -/
theorem exists_device_of_guardedName {input device : Units} (hdevice : IsDeviceName device)
    (h : device <+: Unity.guardedName input) : ∃ device' u, IsDeviceName device' ∧ trimmedName input = device' ++ u := by
  by_cases hnil : trimmedName input = []
  · rw [guardedName_of_nil hnil] at h
    -- nothing that the replacement begins with is a device
    have hnone : ∀ k < 5, ¬IsDeviceName ((lit "file" : Units).take k) := by decide
    have hlength : device.length < 5 := Nat.lt_succ_of_le h.length_le
    rw [List.prefix_iff_eq_take.1 h] at hdevice
    exact absurd hdevice (hnone _ hlength)
  rw [guardedName_of_ne_nil hnil, escape_eq] at h
  -- where the name was escaped, its base is the device
  by_cases hbase : IsDeviceName (fileBase (trimmedName input))
  · exact ⟨_, _, hbase, List.takeWhile_append_dropWhile.symm⟩
  · rw [if_neg hbase] at h
    obtain ⟨u, hu⟩ := h
    exact ⟨device, u, hdevice, hu.symm⟩

/-- The cut of a name is a device where the input is cut to one. -/
theorem isDeviceName_cut_iff_front {input cut : Units} {n : Nat} (hn : n < (Unity.guardedName input).length)
    (hcut : CutName (Unity.guardedName input) cut n) :
    IsDeviceName (fileBase cut) ↔ ∃ front device gap rest, DeviceFront input n front device gap rest := by
  constructor
  · intro hfails
    have hprefix : fileBase cut <+: Unity.guardedName input := (List.takeWhile_prefix _).trans hcut.front
    obtain ⟨device, u, hdevice, hname⟩ := exists_device_of_guardedName hfails hprefix
    obtain ⟨front, gap, rest, rfl, hfront, hgap, hrest⟩ := exists_deviceFront hdevice hname
    obtain ⟨dashed, tail, hguarded, hroom, hbehind⟩ := guardedName_device hfront hdevice hgap hrest
    rw [hguarded] at hn hcut
    obtain ⟨hlow, hhigh⟩ := (isDeviceName_cut_iff hdevice hbehind hn hcut).1 hfails
    refine ⟨front, device, gap, rest, rfl, hfront, hdevice, hgap, hrest, ?_, ?_⟩
    · exact Int.ofNat_le.2 hlow
    · rw [hroom] at hhigh
      exact Int.ofNat_le.2 hhigh
  · intro hexists
    obtain ⟨front, device, gap, rest, hfront⟩ := hexists
    obtain ⟨dashed, tail, hguarded, hroom, hbehind⟩ :=
      guardedName_device hfront.front_soft hfront.isDeviceName hfront.gap_soft hfront.rest_hard
    rw [hfront.input_eq, hguarded] at hn hcut
    apply (isDeviceName_cut_iff hfront.isDeviceName hbehind hn hcut).2
    have hlow := hfront.device_le
    have hhigh := hfront.le_room
    rw [hroom]
    omega

/-! ## The hash -/

theorem hexByte_hard (b : UInt8) : ∀ a ∈ (hexByte b : Units), isSoft a = false := by
  have hdigit : ∀ n < 16, isSoft (ofCode (hexByte.hexDigit n)) = false := by decide
  have hlow : b.toNat / 16 < 16 := Nat.div_lt_of_lt_mul b.toNat_lt
  rw [hexByte, List.forall_mem_cons, List.forall_mem_singleton]
  exact ⟨hdigit _ hlow, hdigit _ (Nat.mod_lt _ (by decide))⟩

theorem shortSha256_hard (sha256 : List UInt8 → Vector UInt8 32) (input : Units) :
    ∀ a ∈ Unity.shortSha256 sha256 input, isSoft a = false := by
  intro a ha
  rw [Unity.shortSha256, List.mem_append, List.mem_append, List.mem_append] at ha
  rcases ha with ((ha | ha) | ha) | ha
  · exact hexByte_hard _ a ha
  · exact hexByte_hard _ a ha
  · exact hexByte_hard _ a ha
  · exact hexByte_hard _ a ha

/-- A dot in front decides about the base. -/
theorem fileBase_append {s : Units} (h : chr '.' ∈ s) (t : Units) : fileBase (s ++ t) = fileBase s := by
  rcases Trim.all_or_exists_first (· != chr '.') s with hall | ⟨front, a, tail, rfl, hfront, ha⟩
  · exact absurd rfl (bne_iff_ne.1 (hall _ h))
  · rw [List.append_assoc, fileBase, fileBase, List.cons_append, Trim.takeWhile_append_cons hfront ha,
      Trim.takeWhile_append_cons hfront ha]

theorem fileBase_of_not_mem {s : Units} (h : chr '.' ∉ s) : fileBase s = s := by
  apply List.takeWhile_eq_self_iff.2
  intro a ha
  rw [bne_iff_ne]
  exact fun hdot => h (hdot ▸ ha)

/-! ## Safe names -/

theorem plain_of_not_unsafe {name : Units} (h : ∀ a ∈ name, Unity.isUnsafeFileNameChar a = false) :
    ∀ c ∈ ['/', '\\', ':', '\t', '\r', '\n'], chr c ∉ name := by
  intro c hc hmem
  have hunsafe : Unity.isUnsafeFileNameChar (chr c : UInt16) = true := unsafe_iff.2 ⟨c, hc, rfl⟩
  rw [h _ hmem] at hunsafe
  exact Bool.false_ne_true hunsafe

theorem safe_of_generated {name : Units} {maxLength : Int} (h : Generated name) (hlength : (name.length : Int) ≤ maxLength) :
    SafeFileName maxLength name := by
  obtain ⟨a, tail, hname, -⟩ := h.head_hard
  refine ⟨?_, hlength, plain_of_not_unsafe h.plain, h.last, h.base⟩
  rw [hname]
  exact List.cons_ne_nil a tail

/-- A cut name is safe as soon as it is no device. -/
theorem safe_cut_iff {name cut : Units} {n : Nat} (h : Generated name) (hcut : CutName name cut n) :
    SafeFileName n cut ↔ ¬IsDeviceName (fileBase cut) := by
  constructor
  · intro hsafe
    exact hsafe.base
  · intro hbase
    have hplain : ∀ a ∈ cut, Unity.isUnsafeFileNameChar a = false := fun a ha => h.plain a (hcut.front.subset ha)
    exact ⟨hcut.ne_nil, Int.ofNat_le.2 hcut.length_le, plain_of_not_unsafe hplain, last_of_not_trimmed hcut.last, hbase⟩

/-- A hash behind a cut name leaves no device. -/
theorem safe_hashed {name cut hash : Units} {n : Nat} (h : Generated name) (hcut : CutName name cut n)
    (hhash : ∀ a ∈ hash, isSoft a = false) (hne : hash ≠ []) :
    SafeFileName (n + 2 + hash.length : Nat) (cut ++ lit "--" ++ hash) := by
  have hdash : (lit "--" : Units) = [chr '-', chr '-'] := rfl
  refine ⟨?_, ?_, plain_of_not_unsafe ?_, last_of_not_trimmed ?_, ?_⟩
  · exact List.append_ne_nil_of_right_ne_nil _ hne
  · have hle := hcut.length_le
    rw [List.length_append, List.length_append, hdash, List.length_cons, List.length_singleton]
    omega
  · intro a ha
    rw [List.mem_append, List.mem_append] at ha
    rcases ha with (hfront | hmid) | hend
    · exact h.plain a (hcut.front.subset hfront)
    · rw [hdash, List.mem_cons, List.mem_singleton, or_self] at hmid
      rw [hmid]
      decide
    · exact not_unsafe_of_hard (hhash a hend)
  · intro a ha
    rw [List.getLast?_append_of_ne_nil _ hne] at ha
    exact not_trimmed_of_hard (hhash a (List.mem_of_getLast? ha))
  · by_cases hdot : chr '.' ∈ cut
    · -- the first dot of the name is in front of the cut
      obtain ⟨rest, hrest⟩ := hcut.front
      rw [List.append_assoc, fileBase_append hdot, ← fileBase_append hdot rest, hrest]
      exact h.base
    · -- without a dot the dashes belong to the base
      have hnodot : chr '.' ∉ cut ++ lit "--" ++ hash := by
        rw [List.mem_append, List.mem_append]
        rintro ((hmem | hmem) | hmem)
        · exact hdot hmem
        · exact absurd hmem (by decide)
        · exact absurd (hhash _ hmem) (by decide)
      rw [fileBase_of_not_mem hnodot]
      intro hdevice
      have hmem : chr '-' ∈ cut ++ lit "--" ++ hash :=
        List.mem_append_left _ (List.mem_append_right _ List.mem_cons_self)
      exact absurd (hard_of_mem_device hdevice hmem) (by decide)

/-- The names of inputs that are cut to a device are longer than their limit. -/
theorem lt_length_of_deviceFront {input front device gap rest : Units} {maxLength : Int}
    (h : DeviceFront input maxLength front device gap rest) : maxLength < (Unity.guardedName input).length := by
  obtain ⟨dashed, tail, hguarded, hroom, hbehind⟩ :=
    guardedName_device h.front_soft h.isDeviceName h.gap_soft h.rest_hard
  have htail : 0 < tail.length := List.length_pos_of_ne_nil hbehind.tail_ne_nil
  have hle := h.le_room
  rw [h.input_eq, hguarded, List.length_append, List.length_append, hroom]
  omega

theorem guard_safe_iff (sha256 : List UInt8 → Vector UInt8 32) {input : Units} {maxLength : Int} (hinput : input ≠ [])
    (hnul : nul ∉ input) (hmax : 1 ≤ maxLength) :
    ∃ name, Unity.makeSafeFileName sha256 input maxLength = .ok name ∧
      (SafeFileName maxLength name ↔ ¬CutToDevice input maxLength) := by
  have hgenerated := generated_guardedName input
  rw [Unity.makeSafeFileName, if_neg hinput, if_neg hnul, if_neg (by omega)]
  by_cases hshort : ((Unity.guardedName input).length : Int) ≤ maxLength
  · rw [if_pos hshort]
    refine ⟨_, rfl, iff_of_true (safe_of_generated hgenerated hshort) ?_⟩
    intro hcut
    -- a device with its gap would be longer than the limit
    obtain ⟨-, front, device, gap, rest, hfront⟩ := hcut
    exact absurd (lt_length_of_deviceFront hfront) (by omega)
  rw [if_neg hshort]
  -- a longer name is cut, and beyond ten units a hash takes the place of what is gone
  obtain ⟨n, rfl⟩ : ∃ n : Nat, maxLength = n := ⟨maxLength.toNat, by omega⟩
  by_cases hsmall : (n : Int) ≤ 10
  · rw [if_pos hsmall, Int.toNat_natCast]
    have hcut : CutName (Unity.guardedName input) (Unity.trimSafe ((Unity.guardedName input).take n)) n :=
      cutName_trimSafe hgenerated (by omega)
    refine ⟨_, rfl, ?_⟩
    rw [safe_cut_iff hgenerated hcut, isDeviceName_cut_iff_front (by omega) hcut, CutToDevice, and_iff_right hsmall]
  · rw [if_neg hsmall]
    have htake : ((n : Int) - 10).toNat = n - 10 := by omega
    have hcut : CutName (Unity.guardedName input) (Unity.trimSafe ((Unity.guardedName input).take (n - 10))) (n - 10) :=
      cutName_trimSafe hgenerated (by omega)
    have hlength : (Unity.shortSha256 sha256 input).length = 8 := rfl
    have hsafe := safe_hashed hgenerated hcut (shortSha256_hard sha256 input) (List.cons_ne_nil _ _)
    have hsum : n - 10 + 2 + (Unity.shortSha256 sha256 input).length = n := by omega
    rw [hsum] at hsafe
    rw [htake]
    exact ⟨_, rfl, iff_of_true hsafe fun hdevice => hsmall hdevice.1⟩

/-- The gateway and the bridge write a safe name exactly for the inputs that are not cut to a device. -/
theorem makeSafeFileName_safe_iff (sha256 : List UInt8 → Vector UInt8 32) {input : Units} {maxLength : Int}
    (hinput : input ≠ []) (hnul : nul ∉ input) (hmax : 1 ≤ maxLength) :
    ∃ name, TS.makeSafeFileName sha256 input maxLength = .ok name ∧
      Unity.makeSafeFileName sha256 input maxLength = .ok name ∧
        (SafeFileName maxLength name ↔ ¬CutToDevice input maxLength) := by
  obtain ⟨name, hname, hsafe⟩ := guard_safe_iff sha256 hinput hnul hmax
  have hagrees := sameOutcome_eq_iff.1 (makeSafeFileName_agrees sha256 input maxLength) name
  exact ⟨name, hagrees.2 hname, hname, hsafe⟩

/-- At a limit without a hash. -/
theorem makeSafeFileName_safe_iff_short :
    ∃ name, TS.makeSafeFileName (fun _ => Vector.replicate 32 0) (lit "CON.txt") 8 = .ok name ∧
      Unity.makeSafeFileName (fun _ => Vector.replicate 32 0) (lit "CON.txt") 8 = .ok name ∧
        (SafeFileName 8 name ↔ ¬CutToDevice (lit "CON.txt") 8) :=
  makeSafeFileName_safe_iff _ (by decide) (by decide) (by decide)

/-- The cut undoes the escape. -/
theorem makeSafeFileName_device :
    Unity.makeSafeFileName (fun _ => Vector.replicate 32 0) (lit "CON.txt") 5 = .ok (lit "CON") ∧
      TS.makeSafeFileName (fun _ => Vector.replicate 32 0) (lit "CON.txt") 5 = .ok (lit "CON") ∧
        ¬∀ (sha256 : List UInt8 → Vector UInt8 32) (input : Units) (maxLength : Int), input ≠ [] → nul ∉ input →
          1 ≤ maxLength →
            ∃ name, TS.makeSafeFileName sha256 input maxLength = .ok name ∧ SafeFileName maxLength name := by
  have hbridge : Unity.makeSafeFileName (fun _ => Vector.replicate 32 0) (lit "CON.txt") 5 = .ok (lit "CON") := by
    decide
  have hgateway : TS.makeSafeFileName (fun _ => Vector.replicate 32 0) (lit "CON.txt") 5 = .ok (lit "CON") :=
    (sameOutcome_eq_iff.1 (makeSafeFileName_agrees _ _ _) _).2 hbridge
  refine ⟨hbridge, hgateway, ?_⟩
  intro h
  obtain ⟨name, hname, hsafe⟩ := h (fun _ => Vector.replicate 32 0) (lit "CON.txt") 5 (by decide) (by decide) (by decide)
  rw [hgateway, Except.ok.injEq] at hname
  rw [← hname] at hsafe
  exact hsafe.base (by decide)

end Ports

end CanonicalPath
