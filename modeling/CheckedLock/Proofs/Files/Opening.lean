import CheckedLock.Files.Store

/-! Opening and appending. A file once found is found again whatever is opened or appended, and an
append to it can as well come after the opening of another. -/
namespace CheckedLock
namespace FileStore

variable {ρ : Type} {s s' : FileStore ρ} {p q dir : FilePath} {n : Node} {r : ρ}

theorem lookup_isSome_iff_mem {fs : List (FilePath × Contents ρ)} :
    (fs.lookup p).isSome = true ↔ p ∈ fs.map Prod.fst := by
  rw [List.lookup_isSome_iff, List.mem_map]
  exact exists_congr fun f => and_congr_right fun _ => beq_iff_eq.trans eq_comm

/-- The same names stand for the same kinds of things. -/
structure SameTree (s s' : FileStore ρ) : Prop where
  directories : s'.directories = s.directories
  devices : s'.devices = s.devices
  here : s'.here = s.here
  files : s'.files.map Prod.fst = s.files.map Prod.fst

namespace SameTree

theorem node? (h : SameTree s s') (p : FilePath) : s'.node? p = s.node? p := by
  have hsome : (s'.contents? p).isSome = (s.contents? p).isSome := by
    rw [Bool.eq_iff_iff]
    unfold contents?
    rw [lookup_isSome_iff_mem, lookup_isSome_iff_mem, h.files]
  have hfile : (s'.contents? p).map (fun _ => Node.file) = (s.contents? p).map fun _ => .file := by
    cases h₁ : s'.contents? p <;> cases h₂ : s.contents? p <;> simp_all
  simp only [FileStore.node?, h.directories, h.devices, hfile]

theorem enter (h : SameTree s s') (dir : FilePath) (name : String) :
    s'.enter dir name = s.enter dir name := by
  simp only [FileStore.enter, h.node?]

theorem walk (h : SameTree s s') (dir : FilePath) (names : List String) :
    s'.walk dir names = s.walk dir names := by
  induction names generalizing dir with
  | nil => rfl
  | cons name rest ih =>
    cases rest with
    | nil => exact h.enter dir name
    | cons name' rest =>
      simp only [FileStore.walk, h.enter]
      cases he : s.enter dir name with
      | error e => rfl
      | ok place =>
        cases place with
        | free _ => rfl
        | found p _ => exact ih p

theorem follow (h : SameTree s s') (adjust : List String → List String) (path : List Char) :
    s'.follow adjust path = s.follow adjust path := by
  simp only [FileStore.follow, h.here, h.walk]

theorem find (h : SameTree s s') (path : String) : s'.find path = s.find path := by
  simp only [FileStore.find, h.follow]

theorem findOrFree (h : SameTree s s') (path : String) :
    s'.findOrFree path = s.findOrFree path := by
  simp only [FileStore.findOrFree, h.follow]

end SameTree

theorem keys_extend (p : FilePath) (r : ρ) (fs : List (FilePath × Contents ρ)) :
    (extend p r fs).map Prod.fst = fs.map Prod.fst := by
  induction fs with
  | nil => rfl
  | cons f rest ih =>
    unfold extend
    split
    · rfl
    · simp [ih]

/-- An entry goes to the file that is there already. -/
theorem extend_append {fs : List (FilePath × Contents ρ)} (h : p ∈ fs.map Prod.fst)
    (gs : List (FilePath × Contents ρ)) : extend p r (fs ++ gs) = extend p r fs ++ gs := by
  induction fs with
  | nil => simp at h
  | cons f rest ih =>
    simp only [List.cons_append, extend]
    split
    case isTrue => rfl
    case isFalse hne =>
      have hrest : p ∈ rest.map Prod.fst := by
        obtain hp | hp := List.mem_cons.mp h
        · exact absurd hp.symm hne
        · exact hp
      rw [ih hrest, List.cons_append]

/-- An append leaves the tree as it is. -/
theorem sameTree_append {path : String} (h : s.append path r = some s') : SameTree s s' := by
  unfold append at h
  split at h
  · cases h
    exact ⟨rfl, rfl, rfl, keys_extend _ _ _⟩
  · cases h
    exact ⟨rfl, rfl, rfl, rfl⟩
  · cases h

/-- A file `q` is new. -/
def grown (s : FileStore ρ) (q : FilePath) : FileStore ρ :=
  { s with files := s.files ++ [(q, ⟨"", []⟩)] }

theorem contents?_grown (s : FileStore ρ) (q p : FilePath) :
    (s.grown q).contents? p = (s.contents? p).or (if p = q then some ⟨"", []⟩ else none) := by
  unfold contents? grown
  rw [List.lookup_append]
  by_cases h : p = q
  · rw [h, List.lookup_cons_self, if_pos rfl]
  · rw [List.lookup_cons, beq_false_of_ne h, List.lookup_nil, if_neg h]

theorem node?_grown (hq : s.node? q = none) (p : FilePath) :
    (s.grown q).node? p = if p = q then some .file else s.node? p := by
  have hd : (s.grown q).directories = s.directories := rfl
  have hv : (s.grown q).devices = s.devices := rfl
  unfold node? at hq ⊢
  rw [hd, hv, contents?_grown]
  by_cases h : p = q
  · subst h
    split at hq
    case isTrue => cases hq
    case isFalse hdir =>
      split at hq
      case h_1 => cases hq
      case h_2 =>
        rw [if_neg hdir, if_pos rfl, if_pos rfl]
        cases hc : s.contents? p with
        | none => rfl
        | some c => simp [hc] at hq
  · rw [if_neg h, if_neg h, Option.or_none]

theorem directory_grown (hq : s.node? q = none) :
    (s.grown q).node? dir = some .directory ↔ s.node? dir = some .directory := by
  rw [node?_grown hq]
  by_cases h : dir = q
  · subst h
    simp [hq]
  · rw [if_neg h]

/-- What a look-up comes to when `q` has become a file. -/
def Place.after (q : FilePath) : Place → Place
  | .found p n => .found p n
  | .free p => if p = q then .found p .file else .free p

theorem enter_grown (hq : s.node? q = none) {name : String} {place : Place}
    (h : s.enter dir name = .ok place) : (s.grown q).enter dir name = .ok (place.after q) := by
  unfold enter at h ⊢
  simp only [ne_eq, directory_grown hq] at h ⊢
  split at h
  case isTrue => cases h
  case isFalse hdir =>
    rw [if_neg hdir]
    split at h
    case isTrue hdot =>
      cases h
      rw [if_pos hdot]
      rfl
    case isFalse hdot =>
      rw [if_neg hdot]
      split at h
      case isTrue hup =>
        cases h
        rw [if_pos hup]
        rfl
      case isFalse hup =>
        rw [if_neg hup]
        split at h
        case isTrue => cases h
        case isFalse hlong =>
          rw [if_neg hlong, node?_grown hq]
          split at h
          case h_1 n hn =>
            cases h
            have hne : dir ++ [name] ≠ q := by
              rintro rfl
              rw [hq] at hn
              cases hn
            rw [if_neg hne, hn]
            rfl
          case h_2 hn =>
            cases h
            by_cases he : dir ++ [name] = q
            · simp [he, Place.after]
            · simp [he, hn, Place.after]

theorem walk_grown (hq : s.node? q = none) {names : List String} {place : Place}
    (h : s.walk dir names = .ok place) : (s.grown q).walk dir names = .ok (place.after q) := by
  induction names generalizing dir with
  | nil =>
    cases h
    rfl
  | cons name rest ih =>
    cases rest with
    | nil => exact enter_grown hq h
    | cons name' rest =>
      simp only [walk] at h ⊢
      split at h
      case h_1 => cases h
      case h_2 => cases h
      case h_3 p n hp =>
        rw [enter_grown hq hp]
        exact ih h

theorem follow_grown (hq : s.node? q = none) {adjust : List String → List String}
    {path : List Char} {place : Place} (h : s.follow adjust path = .ok place) :
    (s.grown q).follow adjust path = .ok (place.after q) := by
  unfold follow at h ⊢
  split at h
  case isTrue => cases h
  case isFalse hne =>
    rw [if_neg hne]
    split at h
    case isTrue => cases h
    case isFalse hlong =>
      rw [if_neg hlong]
      exact walk_grown hq h

theorem find_grown (hq : s.node? q = none) {path : String} (h : s.find path = .ok (p, n)) :
    (s.grown q).find path = .ok (p, n) := by
  unfold find at h ⊢
  simp only at h ⊢
  split at h
  case h_1 => cases h
  case h_2 => cases h
  case h_3 p' n' hp =>
    rw [follow_grown hq hp]
    exact h

/-- A free place is free. -/
theorem node?_of_free {names : List String} (h : s.walk dir names = .ok (.free q)) :
    s.node? q = none := by
  have henter : ∀ {dir : FilePath} {name : String}, s.enter dir name = .ok (.free q) →
      s.node? q = none := by
    intro dir name h
    unfold enter at h
    split at h
    · cases h
    split at h
    · cases h
    split at h
    · cases h
    split at h
    · cases h
    split at h
    · cases h
    case h_2 hn =>
      cases h
      exact hn
  induction names generalizing dir with
  | nil => cases h
  | cons name rest ih =>
    cases rest with
    | nil => exact henter h
    | cons name' rest =>
      simp only [walk] at h
      split at h
      case h_1 => cases h
      case h_2 => cases h
      case h_3 => exact ih h

/-- A way that ends in `.` leads to a directory, if anywhere. -/
theorem walk_dot {names : List String} {place : Place}
    (h : s.walk dir (names ++ ["."]) = .ok place) : ∃ d, place = .found d .directory := by
  induction names generalizing dir with
  | nil =>
    simp only [List.nil_append, walk, enter] at h
    split at h
    · cases h
    · cases h
      exact ⟨dir, rfl⟩
  | cons name rest ih =>
    obtain ⟨name', rest', hrest⟩ := List.exists_cons_of_ne_nil
      (List.append_ne_nil_of_right_ne_nil rest (List.cons_ne_nil "." []))
    rw [List.cons_append, hrest] at h
    simp only [walk] at h
    rw [← hrest] at h
    split at h
    case h_1 => cases h
    case h_2 => cases h
    case h_3 => exact ih h

/-- What is no directory is what stands at the path that was found. -/
theorem node?_of_found {names : List String} (h : s.walk dir names = .ok (.found p n))
    (hn : n ≠ .directory) : s.node? p = some n := by
  have henter : ∀ {dir : FilePath} {name : String}, s.enter dir name = .ok (.found p n) →
      s.node? p = some n := by
    intro dir name h
    unfold enter at h
    split at h
    · cases h
    split at h
    · cases h
      exact absurd rfl hn
    split at h
    · cases h
      exact absurd rfl hn
    split at h
    · cases h
    split at h
    case h_1 hnode =>
      cases h
      exact hnode
    case h_2 => cases h
  induction names generalizing dir with
  | nil =>
    cases h
    exact absurd rfl hn
  | cons name rest ih =>
    cases rest with
    | nil => exact henter h
    | cons name' rest =>
      simp only [walk] at h
      split at h
      case h_1 => cases h
      case h_2 => cases h
      case h_3 => exact ih h

theorem follow_ok {adjust : List String → List String} {path : List Char} {place : Place}
    (h : s.follow adjust path = .ok place) :
    ∃ dir, s.walk dir (adjust (names path)) = .ok place := by
  unfold follow at h
  split at h
  · cases h
  split at h
  · cases h
  exact ⟨_, h⟩

/-- A path that has been opened: it leads to a file or a device. -/
def Opened (s : FileStore ρ) (path : String) : Prop :=
  ∃ p n, s.find path = .ok (p, n) ∧ n ≠ .directory

theorem Opened.grown (hq : s.node? q = none) {path : String} (h : s.Opened path) :
    (s.grown q).Opened path := by
  obtain ⟨p, n, hp, hn⟩ := h
  exact ⟨p, n, find_grown hq hp, hn⟩

theorem Opened.sameTree (hs : SameTree s s') {path : String} (h : s.Opened path) :
    s'.Opened path := by
  obtain ⟨p, n, hp, hn⟩ := h
  exact ⟨p, n, (hs.find path).trans hp, hn⟩

theorem find_of_follow {path : String} (hs : slashed (Terminated.ofChars path.toList) = false)
    (h : s.follow id (Terminated.ofChars path.toList) = .ok (.found p n)) :
    s.find path = .ok (p, n) := by
  simp [find, h, hs]

/-- Opening succeeds only for a path without a slash at its end, which is looked up as it is. -/
theorem follow_of_findOrFree {path : String} {place : Place}
    (h : s.findOrFree path = .ok place) (hplace : ∀ d, place ≠ .found d .directory) :
    slashed (Terminated.ofChars path.toList) = false ∧
      s.follow id (Terminated.ofChars path.toList) = .ok place := by
  unfold findOrFree at h
  cases hs : slashed (Terminated.ofChars path.toList) with
  | true =>
    obtain ⟨dir, hwalk⟩ := follow_ok h
    rw [if_pos hs] at hwalk
    obtain ⟨d, hd⟩ := walk_dot hwalk
    exact absurd hd (hplace d)
  | false =>
    simp only [hs, Bool.false_eq_true, if_false] at h
    exact ⟨rfl, h⟩

theorem openAppend_of_found {path : String} (h : s.findOrFree path = .ok (.found p n))
    (hn : n ≠ .directory) : s.openAppend path = .ok s := by
  unfold openAppend
  rw [h]
  cases n with
  | directory => exact absurd rfl hn
  | _ => rfl

theorem openAppend_of_free {path : String} (h : s.findOrFree path = .ok (.free q)) :
    s.openAppend path = .ok (s.grown q) := by
  unfold openAppend
  rw [h]
  rfl

/-- Opening finds something or makes a new file; the path then names it. -/
theorem openAppend_ok {path : String} (h : s.openAppend path = .ok s') :
    s'.Opened path ∧
      ((∃ p n, s.findOrFree path = .ok (.found p n) ∧ n ≠ .directory ∧ s' = s) ∨
        ∃ q, s.findOrFree path = .ok (.free q) ∧ s.node? q = none ∧ s' = s.grown q) := by
  unfold openAppend at h
  split at h
  case h_1 => cases h
  case h_2 => cases h
  case h_3 p n hdir hplace =>
    cases h
    have hn : n ≠ .directory := hdir
    obtain ⟨hs, hfollow⟩ := follow_of_findOrFree hplace fun d hd => hn (by cases hd; rfl)
    exact ⟨⟨p, n, find_of_follow hs hfollow, hn⟩, .inl ⟨p, n, hplace, hn, rfl⟩⟩
  case h_4 q hplace =>
    cases h
    obtain ⟨hs, hfollow⟩ := follow_of_findOrFree hplace nofun
    obtain ⟨dir, hwalk⟩ := follow_ok hfollow
    have hq := node?_of_free hwalk
    have hfound :
        (s.grown q).follow id (Terminated.ofChars path.toList) = .ok (.found q .file) := by
      rw [follow_grown hq hfollow]
      simp [Place.after]
    exact ⟨⟨q, .file, find_of_follow hs hfound, nofun⟩, .inr ⟨q, hplace, hq, rfl⟩⟩

theorem Opened.openAppend {path path' : String} (h : s.Opened path)
    (ho : s.openAppend path' = .ok s') : s'.Opened path := by
  obtain ⟨-, ⟨-, -, -, -, rfl⟩ | ⟨q, -, hq, rfl⟩⟩ := openAppend_ok ho
  · exact h
  · exact h.grown hq

/-- Whether a path can be opened does not depend on what the files hold. -/
theorem openAppend_error {path : String} {e : OpenError} (h : s.openAppend path = .error e)
    (hs : SameTree s s') : s'.openAppend path = .error e := by
  unfold FileStore.openAppend at h ⊢
  rw [hs.findOrFree]
  split at h
  case h_1 => exact h
  case h_2 => exact h
  case h_3 => cases h
  case h_4 => cases h

/-- A file that is found is in the list. -/
theorem key_of_find {path : String} (h : s.find path = .ok (p, .file)) :
    p ∈ s.files.map Prod.fst := by
  have hwalk : ∃ dir names, s.walk dir names = .ok (.found p .file) := by
    unfold find at h
    simp only at h
    split at h
    case h_1 => cases h
    case h_2 => cases h
    case h_3 p' n' hp =>
      split at h
      case isTrue => cases h
      case isFalse =>
        cases h
        obtain ⟨dir, hwalk⟩ := follow_ok hp
        exact ⟨dir, _, hwalk⟩
  obtain ⟨dir, names, hwalk⟩ := hwalk
  have hnode := node?_of_found hwalk nofun
  rw [← lookup_isSome_iff_mem]
  unfold node? at hnode
  split at hnode
  case isTrue => cases hnode
  case isFalse =>
    split at hnode
    case h_1 => cases hnode
    case h_2 =>
      obtain ⟨c, hc, -⟩ := Option.map_eq_some_iff.mp hnode
      exact Option.isSome_iff_exists.mpr ⟨c, hc⟩

theorem append_of_file {path : String} (h : s.find path = .ok (p, .file)) :
    s.append path r = some { s with files := extend p r s.files } := by
  simp [append, h]

/-- An append to an opened path can as well come after another path is opened. -/
theorem append_openAppend {path path' : String} (h : s.Opened path)
    (ho : s.openAppend path' = .ok s') :
    match s.append path r with
    | some y => ∃ y', y.openAppend path' = .ok y' ∧ s'.append path r = some y'
    | none => s'.append path r = none := by
  obtain ⟨p, n, hp, hn⟩ := h
  obtain ⟨-, ⟨p', n', hfound, hn', rfl⟩ | ⟨q, hfree, hq, rfl⟩⟩ := openAppend_ok ho
  · cases ha : s'.append path r with
    | none => rfl
    | some y =>
      exact ⟨y, openAppend_of_found (((sameTree_append ha).findOrFree path').trans hfound) hn', rfl⟩
  · have hp' := find_grown hq hp
    cases n with
    | directory => exact absurd rfl hn
    | device d =>
      cases d with
      | null => simp [append, hp, hp', openAppend_of_free hfree]
      | full => simp [append, hp, hp']
    | file =>
      have ha := append_of_file (r := r) hp
      simp only [ha]
      refine ⟨_, openAppend_of_free (((sameTree_append ha).findOrFree path').trans hfree), ?_⟩
      rw [append_of_file hp']
      simp only [grown, extend_append (key_of_find hp)]

end FileStore
end CheckedLock
