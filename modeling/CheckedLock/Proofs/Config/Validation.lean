import CheckedLock.Proofs.Config.Items

/-! Which settings are accepted. Reading takes a document whose items are all in order and gives
each field what stands there or its default; of any other it reports the first item that is not in
order. -/
namespace CheckedLock
namespace Config

variable {α : Type} {env : Option String} {j : Json} {is : List Item} {good : α → Prop}

/-! ### Reports -/

theorem ofText_append {s t : String} (hs : '\x00' ∉ s.toList) :
    Terminated.ofText (s ++ t) = s ++ Terminated.ofText t := by
  rw [← String.toList_inj, Terminated.toList_ofText, String.toList_append, String.toList_append,
    Terminated.toList_ofText]
  refine List.takeWhile_append_of_pos fun c hc => ?_
  simpa using fun h : c = '\x00' => hs (h ▸ hc)

namespace Item

variable {i : Item} {p : Problem}

theorem nul_not_mem_subject (i : Item) : '\x00' ∉ ("Lock config: " ++ i.subject).toList ∧
    '\x00' ∉ ("Lock config: invalid " ++ i.subject).toList := by
  cases i <;> decide +kernel

/-- The item is named before anything that the document says, so a NUL there does no harm. -/
theorem namedIn_of_headed (rest : String) (h : p.fullText = Problem.headed (i.subject ++ rest)) :
    i.NamedIn p.message := by
  refine ⟨Terminated.ofText rest, .inl ?_⟩
  rw [Problem.message, h, Problem.headed, ← String.append_assoc,
    ofText_append (nul_not_mem_subject i).1]

theorem namedIn_of_invalid (rest : String)
    (h : p.fullText = Problem.headed ("invalid " ++ i.subject ++ rest)) : i.NamedIn p.message := by
  refine ⟨Terminated.ofText rest, .inr ?_⟩
  have htext : Problem.headed ("invalid " ++ i.subject ++ rest) =
      "Lock config: invalid " ++ i.subject ++ rest := by
    rw [Problem.headed, ← String.append_assoc, ← String.append_assoc]
    rfl
  rw [Problem.message, h, htext, ofText_append (nul_not_mem_subject i).2]

/-- A word that names nothing: the report says it and what may stand there. -/
theorem namedIn_of_unknown (start value choices : String)
    (hstart : start = "invalid " ++ i.subject ++ " = ")
    (h : p.fullText = Problem.headed (start ++ Problem.quoted value ++ choices)) :
    i.NamedIn p.message := by
  refine namedIn_of_invalid (" = " ++ Problem.quoted value ++ choices) ?_
  rw [h, hstart]
  simp only [String.append_assoc]

end Item

/-! ### Readers of one member -/

theorem vets_textMember {i : Item} {w : Json} {name key fallback : String}
    (hi : InOrder env j i ↔ Sound (w.member? name) ReadsText)
    (hkey : i.subject = Problem.quoted key ++ " must be a string") :
    Vets env j [i] (Given (w.member? name) ReadsText fallback)
      (textMember w name key fallback) := by
  refine .of_member hi (fun s hs => ?_) fun p hp => ?_
  · unfold textMember at hs
    split at hs <;> rename_i hv <;> rw [hv] <;> cases hs <;> rfl
  · unfold textMember at hp
    split at hp
    case h_1 | h_2 => cases hp
    case h_3 v hstring hv =>
      cases hp
      refine ⟨⟨v, hv, hstring⟩, Item.namedIn_of_headed "" ?_⟩
      rw [hkey, String.append_empty]
      rfl

theorem namedMember_eq (w : Json) (name key fallback : String) (named : String → Checked α) :
    namedMember w name key fallback named = match w.member? name with
      | none => named fallback
      | some (.string s) => named s
      | some _ => .error (.notString key) := by
  unfold namedMember textMember
  cases w.member? name with
  | none => rfl
  | some v => cases v <;> rfl

/-- A word that is to name something. -/
theorem vets_namedMember {i : Item} {w : Json} {name key fallback : String}
    {named : String → Checked α} {reads : Json → α → Prop} {default : α}
    (hi : InOrder env j i ↔ Sound (w.member? name) reads)
    (hreads : ∀ v x, reads v x ↔ ∃ s, v = .string s ∧ named s = .ok x)
    (hdefault : named fallback = .ok default) (hkey : i.subject = Problem.quoted key)
    (herror : ∀ s p, named s = .error p → i.NamedIn p.message) :
    Vets env j [i] (Given (w.member? name) reads default)
      (namedMember w name key fallback named) := by
  refine .of_member hi (fun x hx => ?_) fun p hp => ?_
  · rw [namedMember_eq] at hx
    split at hx <;> rename_i hv <;> rw [hv]
    case h_1 =>
      rw [hdefault] at hx
      exact (Except.ok.inj hx).symm
    case h_2 s => exact (hreads _ _).mpr ⟨s, rfl, hx⟩
    case h_3 => cases hx
  · rw [namedMember_eq] at hp
    split at hp
    case h_1 => simp [hdefault] at hp
    case h_2 s hv =>
      refine ⟨⟨_, hv, fun x hx => ?_⟩, herror s p hp⟩
      obtain ⟨s', hs', hx⟩ := (hreads _ _).mp hx
      cases hs'
      rw [hp] at hx
      cases hx
    case h_3 v hstring hv =>
      cases hp
      refine ⟨⟨v, hv, fun x hx => ?_⟩, Item.namedIn_of_headed " must be a string" ?_⟩
      · obtain ⟨s, hs, -⟩ := (hreads _ _).mp hx
        exact hstring s hs
      · rw [hkey]
        rfl

theorem vets_flagMember {w : Json}
    (hi : InOrder env j .flock ↔ Sound (w.member? "flock") ReadsFlag) :
    Vets env j [.flock] (Given (w.member? "flock") ReadsFlag false)
      (flagMember w "flock" false) := by
  refine .of_member hi (fun b hb => ?_) fun p hp => ?_
  · unfold flagMember at hb
    split at hb <;> rename_i hv <;> rw [hv] <;> cases hb <;> rfl
  · unfold flagMember at hp
    split at hp
    case h_1 | h_2 => cases hp
    case h_3 v hbool hv =>
      cases hp
      exact ⟨⟨v, hv, hbool⟩, Item.namedIn_of_headed " must be a boolean" (by decide +kernel)⟩

theorem signed_of_small {n : Int} (h : -9223372036854775808 ≤ n) (h' : n < 9223372036854775808) :
    Json.signed 64 n = n := by
  rw [Json.signed, BitVec.toInt_ofInt, Int.bmod_def]
  omega

theorem signed_of_large {n : Int} (h : 9223372036854775808 ≤ n) (h' : n < 18446744073709551616) :
    Json.signed 64 n < 0 := by
  rw [Json.signed, BitVec.toInt_ofInt, Int.bmod_def]
  omega

/-- A number that takes all 64 bits turns negative, so the check holds for it, too. -/
theorem signed_in_range_iff {n : Int} (h : -9223372036854775808 ≤ n)
    (h' : n < 18446744073709551616) :
    ¬ (Json.signed 64 n < 1 ∨ (largestCount : Int) < Json.signed 64 n) ↔ 1 ≤ n ∧ n ≤ 100000000 := by
  have hlargest : (largestCount : Int) = 100000000 := rfl
  rw [hlargest]
  obtain hsmall | hlarge := Int.lt_or_le n 9223372036854775808
  · rw [signed_of_small h hsmall]
    omega
  · have := signed_of_large hlarge h'
    omega

theorem signed_32_of_range {n : Int} (h : 1 ≤ n ∧ n ≤ 100000000) : Json.signed 32 n = n := by
  rw [Json.signed, BitVec.toInt_ofInt, Int.bmod_def]
  omega

theorem integer?_eq_some {v : Json} {n : Int} (h : v.integer? = some n) :
    v = .number (.integer n) ∧ -9223372036854775808 ≤ n ∧ n < 18446744073709551616 := by
  unfold Json.integer? at h
  split at h
  case h_1 m =>
    split at h
    case isTrue hm =>
      cases h
      exact ⟨rfl, hm⟩
    case isFalse => cases h
  case h_2 => cases h

theorem vets_countMember {i : Item} {w : Json} {name key : String} {fallback : Nat}
    (hi : InOrder env j i ↔ Sound (w.member? name) ReadsCount)
    (hkey : i.subject = Problem.quoted key) :
    Vets env j [i] (Given (w.member? name) ReadsCount fallback)
      (countMember w name key fallback) := by
  have hnamed : i.NamedIn (Problem.badCount key).message := by
    refine Item.namedIn_of_headed (" must be an integer between 1 and " ++ toString largestCount) ?_
    have htext : (Problem.badCount key).fullText = Problem.headed (Problem.quoted key ++
        " must be an integer between 1 and " ++ toString largestCount) := rfl
    rw [htext, hkey, String.append_assoc]
  refine .of_member hi (fun x hx => ?_) fun p hp => ?_
  · unfold countMember at hx
    split at hx
    case h_1 hv =>
      rw [hv]
      exact (Except.ok.inj hx).symm
    case h_2 v hv =>
      split at hx
      case h_1 => cases hx
      case h_2 n hn =>
        obtain ⟨rfl, hrange⟩ := integer?_eq_some hn
        split at hx
        case isTrue => cases hx
        case isFalse hcount =>
          have hn := (signed_in_range_iff hrange.1 hrange.2).mp hcount
          obtain rfl : n.toNat = x := by
            rw [← Except.ok.inj hx, signed_32_of_range hn]
          rw [hv]
          refine ⟨?_, by omega, by omega⟩
          rw [Int.toNat_of_nonneg (by omega)]
  · unfold countMember at hp
    split at hp
    case h_1 => cases hp
    case h_2 v hv =>
      split at hp
      case h_1 hnone =>
        cases hp
        refine ⟨⟨v, hv, ?_⟩, hnamed⟩
        rintro x ⟨rfl, hx⟩
        rw [Json.integer?, if_pos (by omega)] at hnone
        cases hnone
      case h_2 n hn =>
        obtain ⟨rfl, hrange⟩ := integer?_eq_some hn
        split at hp
        case isFalse => cases hp
        case isTrue hcount =>
          cases hp
          refine ⟨⟨_, hv, ?_⟩, hnamed⟩
          rintro x ⟨hx, hrange'⟩
          cases hx
          exact (signed_in_range_iff hrange.1 hrange.2).mpr (by omega) hcount

/-! ### Names -/

theorem levelNamed_ok_iff {key value : String} {l : Level} :
    levelNamed key value = .ok l ↔ NamesLevel value l := by
  rw [namesLevel_iff, levelNamed]
  cases Level.ofName? value <;> simp

theorem namedIn_badLevel {i : Item} {key value : String} {p : Problem}
    (hkey : i.subject = Problem.quoted key) (h : levelNamed key value = .error p) :
    i.NamedIn p.message := by
  have hp : p = .badLevel key value := by
    unfold levelNamed at h
    split at h <;> cases h
    rfl
  rw [hp]
  exact Item.namedIn_of_unknown ("invalid " ++ Problem.quoted key ++ " = ") value
    " (must be 'trace', 'debug', 'info', 'warn', 'error' or 'system')" (by rw [hkey]) rfl

/-- Looking a word up among things that have different names. -/
theorem find?_name_iff {name : α → String} (hinj : ∀ x y, name x = name y → x = y) {xs : List α}
    {x : α} (hx : x ∈ xs) {s : String} : xs.find? (name · == s) = some x ↔ s = name x := by
  constructor
  · intro h
    have hs := List.find?_some h
    exact (beq_iff_eq.mp hs).symm
  · rintro rfl
    cases h : xs.find? (name · == name x) with
    | none => simpa using List.find?_eq_none.mp h x hx
    | some y =>
      have hy := List.find?_some h
      rw [hinj y x (beq_iff_eq.mp hy)]

theorem sinkNamed_ok_iff {value : String} {s : SinkKind} :
    sinkNamed value = .ok s ↔ ReadsSink (.string value) s := by
  have hname : SinkKind.ofName? value = some s ↔ value = s.name :=
    find?_name_iff (by rintro (_ | _) (_ | _) <;> simp [SinkKind.name]) (by cases s <;> simp)
  have hreads : ReadsSink (.string value) s ↔ value = s.name := by
    cases s <;> exact Json.string.injEq .. ▸ Iff.rfl
  rw [hreads, ← hname, sinkNamed]
  cases SinkKind.ofName? value <;> simp

theorem namedIn_badSink {value : String} {p : Problem} (h : sinkNamed value = .error p) :
    Item.sink.NamedIn p.message := by
  have hp : p = .badSink value := by
    unfold sinkNamed at h
    split at h <;> cases h
    rfl
  rw [hp]
  exact Item.namedIn_of_unknown "invalid 'logging.sink' = " value " (must be 'console' or 'file')"
    (by decide +kernel) rfl

theorem policyNamed_ok_iff {value : String} {x : PoisonPolicy} :
    policyNamed value = .ok x ↔ ReadsPolicy (.string value) x := by
  have hname : PoisonPolicy.ofName? value = some x ↔ value = x.name :=
    find?_name_iff (by rintro (_ | _ | _) (_ | _ | _) <;> simp [PoisonPolicy.name])
      (by cases x <;> simp)
  have hreads : ReadsPolicy (.string value) x ↔ value = x.name := by
    cases x <;> exact Json.string.injEq .. ▸ Iff.rfl
  rw [hreads, ← hname, policyNamed]
  cases PoisonPolicy.ofName? value <;> simp

theorem namedIn_badPolicy {value : String} {p : Problem} (h : policyNamed value = .error p) :
    Item.policy.NamedIn p.message := by
  have hp : p = .badPolicy value := by
    unfold policyNamed at h
    split at h <;> cases h
    rfl
  rw [hp]
  exact Item.namedIn_of_unknown "invalid 'poison_policy' = " value
    " (must be 'inform', 'ignore' or 'panic')" (by decide +kernel) rfl

theorem vets_level {w : Json} (hi : InOrder env j .level ↔ Sound (w.member? "level") ReadsLevel) :
    Vets env j [.level] (Given (w.member? "level") ReadsLevel .info)
      (namedMember w "level" "logging.level" "info" (levelNamed "logging.level")) := by
  have hinfo : Spells "info" "info" := List.forall₂_same.mpr fun _ _ => .inl rfl
  refine vets_namedMember hi (fun v l => ?_) (levelNamed_ok_iff.mpr (.info hinfo))
    (by decide +kernel) fun s p hp => namedIn_badLevel (by decide +kernel) hp
  simp only [levelNamed_ok_iff]
  rfl

theorem vets_sink {w : Json} (hi : InOrder env j .sink ↔ Sound (w.member? "sink") ReadsSink) :
    Vets env j [.sink] (Given (w.member? "sink") ReadsSink .console)
      (namedMember w "sink" "logging.sink" "console" sinkNamed) :=
  vets_namedMember hi (fun v x => by cases x <;> simp [sinkNamed_ok_iff, ReadsSink])
    (sinkNamed_ok_iff.mpr rfl) (by decide +kernel) fun _ _ => namedIn_badSink

theorem vets_policy : Vets env j [.policy] (Given (j.member? "poison_policy") ReadsPolicy .inform)
    (policyMember j) :=
  vets_namedMember .rfl (fun v x => by cases x <;> simp [policyNamed_ok_iff, ReadsPolicy])
    (policyNamed_ok_iff.mpr rfl) (by decide +kernel) fun _ _ => namedIn_badPolicy

/-! ### Sections -/

/-- Reads an object, or stops. -/
def objectOr (p : Problem) (w : Json) : Checked Unit :=
  if w.isObject then .ok () else .error p

theorem loggingSettings_eq (w : Json) : loggingSettings w =
    objectOr .loggingNotObject w >>= fun _ =>
    namedMember w "level" "logging.level" "info" (levelNamed "logging.level") >>= fun l =>
    namedMember w "sink" "logging.sink" "console" sinkNamed >>= fun s =>
    textMember w "file" "logging.file" "" >>= fun file =>
    flagMember w "flock" false >>= fun exclusive =>
    (if s = .file ∧ file = "" then .error .fileMissing
      else .ok ⟨l, s, file, exclusive⟩ : Checked LoggingSettings) := by
  unfold loggingSettings objectOr
  split <;> rfl

theorem stressSettings_eq (w : Json) : stressSettings w =
    objectOr .stressNotObject w >>= fun _ =>
    countMember w "threads" "stress.threads" 4 >>= fun threads =>
    countMember w "iterations" "stress.iterations" 10000 >>= fun iterations =>
    (.ok ⟨threads, iterations⟩ : Checked StressSettings) := by
  unfold stressSettings objectOr
  split <;> rfl

theorem ofJson_eq (env : Option String) (j : Json) : ofJson env j =
    objectOr .notObject j >>= fun _ => section? j "logging" {} loggingSettings >>= fun logging =>
    policyMember j >>= fun policy => section? j "stress" {} stressSettings >>= fun stress =>
    override env ⟨logging, policy, stress⟩ := by
  unfold ofJson objectOr
  split <;> rfl

theorem vets_objectOr {i : Item} {w : Json} {p : Problem}
    (hi : InOrder env j i ↔ ∃ members, w = .object members) (hp : i.NamedIn p.message) :
    Vets env j [i] (fun _ => True) (objectOr p w) := by
  cases w with
  | object members =>
    exact ⟨List.forall_mem_singleton.mpr (hi.mpr ⟨members, rfl⟩), trivial⟩
  | null | bool b | number n | string s | array items =>
    refine ⟨i, ⟨[], [], rfl, nofun, fun h => ?_⟩, hp⟩
    obtain ⟨members, hw⟩ := hi.mp h
    cases hw

theorem setting?_of_some {sec : String} {w : Json} (hw : j.member? sec = some w) (key : String) :
    setting? j sec key = w.member? key := by
  rw [setting?, hw, Option.bind_some]

theorem setting?_of_none {sec : String} (hw : j.member? sec = none) (key : String) :
    setting? j sec key = none := by
  rw [setting?, hw, Option.bind_none]

/-- A section that may be absent. -/
theorem vets_section {name : String} {fallback : α} {read : Json → Checked α}
    (hnone : j.member? name = none → (∀ i ∈ is, InOrder env j i) ∧ good fallback)
    (hsome : ∀ w, j.member? name = some w → Vets env j is good (read w)) :
    Vets env j is good (section? j name fallback read) := by
  unfold section?
  split
  case h_1 hn => exact hnone hn
  case h_2 w hw => exact hsome w hw

/-- The fields of the first section. -/
structure FollowsLogging (j : Json) (x : LoggingSettings) : Prop where
  level : Given (setting? j "logging" "level") ReadsLevel .info x.level
  sink : Given (setting? j "logging" "sink") ReadsSink .console x.sink
  file : Given (setting? j "logging" "file") ReadsText "" x.file
  exclusive : Given (setting? j "logging" "flock") ReadsFlag false x.exclusive

/-- The fields of the other section. -/
structure FollowsStress (j : Json) (x : StressSettings) : Prop where
  threads : Given (setting? j "stress" "threads") ReadsCount 4 x.threads
  iterations : Given (setting? j "stress" "iterations") ReadsCount 10000 x.iterations

theorem vets_missingFile {l : Level} {s : SinkKind} {file : String} {exclusive : Bool}
    (hl : Given (setting? j "logging" "level") ReadsLevel .info l)
    (hs : Given (setting? j "logging" "sink") ReadsSink .console s)
    (hf : Given (setting? j "logging" "file") ReadsText "" file)
    (he : Given (setting? j "logging" "flock") ReadsFlag false exclusive) :
    Vets env j [.missingFile] (FollowsLogging j) (if s = .file ∧ file = "" then .error .fileMissing
      else .ok ⟨l, s, file, exclusive⟩) := by
  split
  case isTrue h =>
    obtain ⟨rfl, rfl⟩ := h
    refine ⟨.missingFile, ⟨[], [], rfl, nofun, fun hin => ?_⟩,
      Item.namedIn_of_headed " when 'logging.sink' is 'file'" (by decide +kernel)⟩
    have hsink : setting? j "logging" "sink" = some (.string "file") := by
      unfold Given at hs
      split at hs
      case h_1 => cases hs
      case h_2 v hv => rw [hv, show v = .string "file" from hs]
    obtain ⟨t, ht, hne⟩ := hin hsink
    rw [ht] at hf
    exact hne (Json.string.inj hf)
  case isFalse h =>
    refine ⟨List.forall_mem_singleton.mpr fun hsink => ?_, hl, hs, hf, he⟩
    have hfile : s = .file := by
      rw [hsink] at hs
      cases s with
      | console => exact absurd (Json.string.inj hs) (by decide)
      | file => rfl
    have hne : file ≠ "" := fun hempty => h ⟨hfile, hempty⟩
    unfold Given at hf
    split at hf
    case h_1 => exact absurd hf hne
    case h_2 v hv => exact ⟨file, by rw [hv, show v = .string file from hf], hne⟩

theorem vets_logging : Vets env j Item.ofLogging (FollowsLogging j)
    (section? j "logging" {} loggingSettings) := by
  refine vets_section (fun hnone => ?_) fun w hw => ?_
  · have hsetting := setting?_of_none hnone
    refine ⟨by simp [Item.ofLogging, InOrder, Sound, hnone, hsetting], ?_, ?_, ?_, ?_⟩ <;>
      rw [hsetting] <;> rfl
  · have hsetting := setting?_of_some hw
    have hobject : InOrder env j .logging ↔ ∃ members, w = .object members := by
      simp [InOrder, hw]
    rw [loggingSettings_eq]
    refine (vets_objectOr hobject
      (Item.namedIn_of_headed " must be an object" (by decide +kernel))).cons fun _ _ => ?_
    refine (vets_level (by rw [← hsetting]; rfl)).cons fun l hl => ?_
    refine (vets_sink (by rw [← hsetting]; rfl)).cons fun s hs => ?_
    refine (vets_textMember (by rw [← hsetting]; rfl) (by decide +kernel)).cons fun file hf => ?_
    refine (vets_flagMember (by rw [← hsetting]; rfl)).cons fun exclusive he => ?_
    rw [← hsetting] at hl hs hf he
    exact vets_missingFile hl hs hf he

theorem vets_stress : Vets env j Item.ofStress (FollowsStress j)
    (section? j "stress" {} stressSettings) := by
  refine vets_section (fun hnone => ?_) fun w hw => ?_
  · have hsetting := setting?_of_none hnone
    refine ⟨by simp [Item.ofStress, InOrder, Sound, hnone, hsetting], ?_, ?_⟩ <;>
      rw [hsetting] <;> rfl
  · have hsetting := setting?_of_some hw
    have hobject : InOrder env j .stress ↔ ∃ members, w = .object members := by
      simp [InOrder, hw]
    rw [stressSettings_eq]
    refine (vets_objectOr hobject
      (Item.namedIn_of_headed " must be an object" (by decide +kernel))).cons fun _ _ => ?_
    refine (vets_countMember (by rw [← hsetting]; rfl) (by decide +kernel)).cons fun m hm => ?_
    refine (vets_countMember (by rw [← hsetting]; rfl) (by decide +kernel)).cons fun n hn => ?_
    rw [← hsetting] at hm hn
    exact ⟨nofun, hm, hn⟩

theorem vets_override {x : LoggingSettings} {policy : PoisonPolicy} {y : StressSettings}
    (hx : FollowsLogging j x) (hp : Given (j.member? "poison_policy") ReadsPolicy .inform policy)
    (hy : FollowsStress j y) :
    Vets env j [.levelVariable] (Follows env j) (override env ⟨x, policy, y⟩) := by
  have hfollows : (∀ s, env = some s → s = "") → Vets env j [.levelVariable] (Follows env j)
      (.ok ⟨x, policy, y⟩) := fun hempty =>
    ⟨List.forall_mem_singleton.mpr fun s hs hne => absurd (hempty s hs) hne,
      fun s hs hne => absurd (hempty s hs) hne, fun _ => hx.level, hx.sink, hx.file, hx.exclusive,
      hp, hy.threads, hy.iterations⟩
  unfold override
  split
  case h_1 => exact hfollows nofun
  case h_2 value =>
    split
    case isTrue hempty =>
      refine hfollows fun s hs => ?_
      cases hs
      exact hempty
    case isFalse hne =>
      cases hl : levelNamed levelVariable value with
      | error p =>
        refine ⟨.levelVariable, ⟨[], [], rfl, nofun, fun hin => ?_⟩,
          namedIn_badLevel (by decide +kernel) hl⟩
        obtain ⟨l, hnames⟩ := hin value rfl hne
        rw [levelNamed_ok_iff.mpr hnames] at hl
        cases hl
      | ok l =>
        have hnames := levelNamed_ok_iff.mp hl
        refine ⟨List.forall_mem_singleton.mpr fun s hs _ => ?_, fun s hs _ => ?_, ?_, hx.sink,
          hx.file, hx.exclusive, hp, hy.threads, hy.iterations⟩
        · cases hs
          exact ⟨l, hnames⟩
        · cases hs
          exact hnames
        · rintro (hs | hs)
          · cases hs
          · cases hs
            exact absurd rfl hne

/-- The whole document, one item after the other. -/
theorem vets_ofJson (env : Option String) (j : Json) :
    Vets env j Item.all (Follows env j) (ofJson env j) := by
  have hitems : Item.all =
      .topLevel :: (Item.ofLogging ++ .policy :: (Item.ofStress ++ [.levelVariable])) := rfl
  rw [ofJson_eq, hitems]
  refine (vets_objectOr .rfl
    (Item.namedIn_of_headed " must be an object" (by decide +kernel))).cons fun _ _ => ?_
  refine vets_logging.bind fun x hx => vets_policy.cons fun policy hp => ?_
  exact vets_stress.bind fun y hy => vets_override hx hp hy

theorem Given.unique {v? : Option Json} {reads : Json → α → Prop} {default x y : α}
    (hreads : ∀ v x y, reads v x → reads v y → x = y) (hx : Given v? reads default x)
    (hy : Given v? reads default y) : x = y := by
  cases v? with
  | none => exact hx.trans hy.symm
  | some v => exact hreads v x y hx hy

theorem NamesLevel.unique {value : String} {l l' : Level} (h : NamesLevel value l)
    (h' : NamesLevel value l') : l = l' :=
  Option.some.inj ((namesLevel_iff.mp h).symm.trans (namesLevel_iff.mp h'))

/-- The document and the variable leave no choice. -/
theorem Follows.unique {c c' : Config} (h : Follows env j c) (h' : Follows env j c') : c = c' := by
  have hlevel : c.logging.level = c'.logging.level := by
    by_cases henv : env = none ∨ env = some ""
    · refine (h.level henv).unique ?_ (h'.level henv)
      rintro v l l' ⟨s, rfl, hl⟩ ⟨s', hs, hl'⟩
      cases hs
      exact hl.unique hl'
    · obtain ⟨hnone, hempty⟩ := not_or.mp henv
      obtain ⟨s, rfl⟩ := Option.ne_none_iff_exists'.mp hnone
      have hne : s ≠ "" := fun hs => hempty (congrArg some hs)
      exact (h.overridden s rfl hne).unique (h'.overridden s rfl hne)
  have hsink : c.logging.sink = c'.logging.sink := by
    refine h.sink.unique (fun v x y hx hy => ?_) h'.sink
    cases x <;> cases y <;>
      first | rfl | exact absurd (Json.string.inj (hx.symm.trans hy)) (by decide)
  have hpolicy : c.policy = c'.policy := by
    refine h.policy.unique (fun v x y hx hy => ?_) h'.policy
    cases x <;> cases y <;>
      first | rfl | exact absurd (Json.string.inj (hx.symm.trans hy)) (by decide)
  have hfile : c.logging.file = c'.logging.file :=
    h.file.unique (fun v s t hs ht => Json.string.inj (hs.symm.trans ht)) h'.file
  have hexclusive : c.logging.exclusive = c'.logging.exclusive :=
    h.exclusive.unique (fun v b b' hb hb' => Json.bool.inj (hb.symm.trans hb')) h'.exclusive
  have hcount : ∀ v m n, ReadsCount v m → ReadsCount v n → m = n := fun v m n hm hn =>
    Int.ofNat.inj (Numeral.integer.inj (Json.number.inj (hm.1.symm.trans hn.1)))
  have hthreads := h.threads.unique hcount h'.threads
  have hiterations := h.iterations.unique hcount h'.iterations
  obtain ⟨⟨l, s, file, exclusive⟩, policy, threads, iterations⟩ := c
  obtain ⟨⟨l', s', file', exclusive'⟩, policy', threads', iterations'⟩ := c'
  simp only at hlevel hsink hpolicy hfile hexclusive hthreads hiterations
  subst hlevel hsink hpolicy hfile hexclusive hthreads hiterations
  rfl

/-- Settings are read if and only if every item is in order, and then they are what the document and
the variable say; else the report names the first item that is not in order. -/
theorem ofJson_exact (env : Option String) (j : Json) :
    (∀ c, ofJson env j = .ok c ↔ (∀ i, InOrder env j i) ∧ Follows env j c) ∧
    ((∃ c, ofJson env j = .ok c) ↔ ∀ i, InOrder env j i) ∧
    (∀ p, ofJson env j = .error p → ∃ i, FirstWrong env j Item.all i ∧ i.NamedIn p.message) := by
  have hvets := vets_ofJson env j
  cases h : ofJson env j with
  | ok c =>
    rw [h] at hvets
    obtain ⟨hin, hc⟩ := hvets
    have hall : ∀ i, InOrder env j i := fun i => hin i i.mem_all
    refine ⟨fun c' => ⟨fun hcc' => ?_, fun hc' => congrArg _ (hc.unique hc'.2)⟩,
      ⟨fun _ => hall, fun _ => ⟨c, rfl⟩⟩, nofun⟩
    cases hcc'
    exact ⟨hall, hc⟩
  | error p =>
    rw [h] at hvets
    obtain ⟨i, hi, hp⟩ := hvets
    have hnot : ¬ ∀ i, InOrder env j i := fun hall => hi.not_inOrder (hall i)
    refine ⟨fun c => ⟨nofun, fun hc => absurd hc.1 hnot⟩, ⟨nofun, fun hall => absurd hall hnot⟩,
      fun p' hp' => ?_⟩
    cases hp'
    exact ⟨i, hi, hp⟩

end Config
end CheckedLock
