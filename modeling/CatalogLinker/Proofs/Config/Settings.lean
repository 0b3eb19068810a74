import CatalogLinker.Config
import CatalogLinker.Proofs.Text.Blank
import CatalogLinker.Proofs.Text.Search

namespace CatalogLinker

inductive SettingValue where
  | switch (b : Bool)
  | linkage (l : Linkage)
  | number (n : UInt32)
  | list (ts : List String)

structure IsPart (t : String) : Prop where
  ne_empty : t ≠ ""
  comma : ',' ∉ t.toList
  trimmed : Text.IsTrimmed Text.isBlank t.toList

namespace SettingValue

def kind : SettingValue → SettingKind
  | switch _ => .switch
  | linkage _ => .linkage
  | number _ => .number
  | list _ => .list

def text : SettingValue → String
  | switch b => Config.switchText b
  | linkage l => l.text
  | number n => Nat.repr n.toNat
  | list ts => String.intercalate "," ts

def IsWritable : SettingValue → Prop
  | list ts => ∀ t ∈ ts, IsPart t
  | _ => True

end SettingValue

def SettingKind.read? (v : String) : SettingKind → Option SettingValue
  | switch => (Config.switch? v).map .switch
  | linkage => (Linkage.ofText? v).map .linkage
  | number => (Config.number? v).map .number
  | list => some (.list (Config.parts v))

namespace Config

def value (c : Config) : Setting → SettingValue
  | .exportAll => .switch c.exportAll
  | .failOnUndefined => .switch c.failOnUndefined
  | .warnOnUndefined => .switch c.warnOnUndefined
  | .linkage => .linkage c.linkage
  | .threadProxying => .switch c.threadProxying
  | .callTracing => .switch c.callTracing
  | .fullCatalog => .switch c.fullCatalog
  | .assertions => .switch c.assertions
  | .verbose => .switch c.verbose
  | .defaultIdents => .list (c.defaultIdents.map Ident.text)
  | .exportedNames => .list (c.exportedNames.map Name.text)
  | .deadNames => .list (c.deadNames.map Name.text)
  | .autoexports => .list (c.autoexports.map Ident.text)
  | .globalBase => .number c.globalBase
  | .maxAlign => .number c.maxAlign

structure Assigns (c : Config) (s : Setting) (x : SettingValue) (c' : Config) : Prop where
  value : c'.value s = x
  frame : ∀ t, t ≠ s → c'.value t = c.value t

variable {c c' : Config} {s t : Setting} {v : String} {x : SettingValue} {k : SettingKind}

section Value

theorem kind_value (c : Config) (s : Setting) : (c.value s).kind = s.kind := by
  cases s <;> rfl

theorem valueText_eq (c : Config) (s : Setting) : c.valueText s = (c.value s).text := by
  cases s <;> rfl

theorem ext_value (h : ∀ s, c.value s = c'.value s) : c = c' := by
  have hidents : Function.Injective (List.map Ident.text) :=
    List.map_injective_iff.2 fun ⟨_⟩ ⟨_⟩ => congrArg Ident.mk
  have hnames : Function.Injective (List.map Name.text) :=
    List.map_injective_iff.2 fun ⟨_⟩ ⟨_⟩ => congrArg Name.mk
  cases c
  cases c'
  rw [Config.mk.injEq]
  exact ⟨SettingValue.switch.inj (h .exportAll), SettingValue.switch.inj (h .failOnUndefined),
    SettingValue.switch.inj (h .warnOnUndefined), SettingValue.linkage.inj (h .linkage),
    SettingValue.switch.inj (h .threadProxying), SettingValue.switch.inj (h .callTracing),
    SettingValue.switch.inj (h .fullCatalog), SettingValue.switch.inj (h .assertions),
    SettingValue.switch.inj (h .verbose), hidents (SettingValue.list.inj (h .defaultIdents)),
    hnames (SettingValue.list.inj (h .exportedNames)),
    hnames (SettingValue.list.inj (h .deadNames)),
    hidents (SettingValue.list.inj (h .autoexports)), SettingValue.number.inj (h .globalBase),
    SettingValue.number.inj (h .maxAlign)⟩

end Value

section Parts

theorem isPart_of_mem_parts {p : String} (h : p ∈ parts v) : IsPart p := by
  rw [parts, List.mem_filter, List.mem_map] at h
  obtain ⟨⟨q, hq, rfl⟩, hne⟩ := h
  refine ⟨by simpa using hne, fun hc => ?_, Text.isTrimmed_trim _⟩
  rw [Text.trim, String.toList_ofList, String.toList_ofList] at hc
  exact Text.not_mem_of_mem_pieces hq (Text.mem_of_mem_trimWhere hc)

theorem parts_intercalate {ts : List String} (h : ∀ p ∈ ts, IsPart p) :
    parts (String.intercalate "," ts) = ts := by
  rw [parts, Text.pieces_eq_splitOn, String.toList_intercalate]
  by_cases hts : ts = []
  · subst hts
    decide
  · have hcomma : ∀ q ∈ ts.map String.toList, ',' ∉ q := by
      simpa using fun p hp => (h p hp).comma
    have htrim : ts.map ((fun q => Text.trim (String.ofList q)) ∘ String.toList) = ts := by
      refine (List.map_congr_left fun p hp => ?_).trans ts.map_id
      rw [Function.comp_apply, String.ofList_toList, Text.trim_eq_self (h p hp).trimmed, id]
    have hsplit := List.splitOn_intercalate ',' hcomma (by simpa using hts)
    rw [show ",".toList = [','] from rfl, hsplit, List.map_map, htrim, List.filter_eq_self]
    exact fun p hp => decide_eq_true (h p hp).ne_empty

theorem isTrimmed_intercalate_parts {ts : List String} (h : ∀ p ∈ ts, IsPart p) :
    Text.IsTrimmed Text.isBlank (String.intercalate "," ts).toList := by
  rw [String.toList_intercalate]
  refine Text.isTrimmed_intercalate (fun q hq => ?_) _
  obtain ⟨p, hp, rfl⟩ := List.mem_map.1 hq
  exact ⟨by simpa using (h p hp).ne_empty, (h p hp).trimmed⟩

end Parts

section Texts

theorem switch?_text (b : Bool) : switch? (switchText b) = some b := by
  cases b <;> decide

theorem isTrimmed_switchText (b : Bool) : Text.IsTrimmed Text.isBlank (switchText b).toList := by
  cases b <;> exact ⟨by decide, by decide⟩

theorem isTrimmed_linkage (l : Linkage) : Text.IsTrimmed Text.isBlank l.text.toList := by
  cases l <;> exact ⟨by decide, by decide⟩

theorem isDigit_of_mem_repr {n : Nat} {a : Char} (h : a ∈ (Nat.repr n).toList) : a.isDigit := by
  rw [Nat.toList_repr] at h
  exact Nat.isDigit_of_mem_toDigits (by decide) (by decide) h

theorem number?_repr (n : UInt32) : number? (Nat.repr n.toNat) = some n := by
  rw [number?]
  split
  · rename_i digits hplus
    have hmem : '+' ∈ (Nat.repr n.toNat).toList := hplus ▸ List.mem_cons_self
    exact absurd (isDigit_of_mem_repr hmem) (by decide)
  · rw [Text.decimal?_repr, Option.bind_some, if_pos n.toNat_lt_size, UInt32.ofNat_toNat]

theorem isTrimmed_repr (n : Nat) : Text.IsTrimmed Text.isBlank (Nat.repr n).toList := by
  refine Text.isTrimmed_of_forall_not fun a ha => Text.not_isBlank_of_isAlphanum ?_
  rw [Char.isAlphanum, isDigit_of_mem_repr ha, Bool.or_true]

end Texts

section Read

theorem assign?_of_read (h : s.kind.read? v = some x) :
    ∃ c', c.assign? s v = some c' ∧ c.Assigns s x c' := by
  cases s with
  | exportAll | failOnUndefined | warnOnUndefined | threadProxying | callTracing | fullCatalog
  | assertions | verbose =>
    obtain ⟨b, hb, rfl⟩ := Option.map_eq_some_iff.1 h
    refine ⟨_, congrArg (Option.map _) hb, rfl, fun t ht => ?_⟩
    cases t <;> trivial
  | linkage =>
    obtain ⟨l, hl, rfl⟩ := Option.map_eq_some_iff.1 h
    refine ⟨_, congrArg (Option.map _) hl, rfl, fun t ht => ?_⟩
    cases t <;> trivial
  | globalBase | maxAlign =>
    obtain ⟨n, hn, rfl⟩ := Option.map_eq_some_iff.1 h
    refine ⟨_, congrArg (Option.map _) hn, rfl, fun t ht => ?_⟩
    cases t <;> trivial
  | defaultIdents | exportedNames | deadNames | autoexports =>
    obtain rfl := Option.some.inj h
    refine ⟨_, rfl, by simp [value, Function.comp_def], fun t ht => ?_⟩
    cases t <;> trivial

theorem assign?_eq_none (h : s.kind.read? v = none) : c.assign? s v = none := by
  cases s with
  | defaultIdents | exportedNames | deadNames | autoexports =>
    exact absurd h (Option.some_ne_none _)
  | _ => exact congrArg (Option.map _) (Option.map_eq_none_iff.1 h)

theorem assigns_of_assign? (h : c.assign? s v = some c') :
    ∃ x, s.kind.read? v = some x ∧ c.Assigns s x c' := by
  cases hx : s.kind.read? v with
  | none => simp [assign?_eq_none hx] at h
  | some x =>
    obtain ⟨c₁, h₁, hc₁⟩ := assign?_of_read (c := c) hx
    obtain rfl : c₁ = c' := Option.some.inj (h₁.symm.trans h)
    exact ⟨x, rfl, hc₁⟩

theorem isWritable_of_read (h : k.read? v = some x) : x.IsWritable := by
  cases k with
  | list =>
    obtain rfl := Option.some.inj h
    exact fun p => isPart_of_mem_parts
  | switch | linkage | number =>
    obtain ⟨y, -, rfl⟩ := Option.map_eq_some_iff.1 h
    trivial

theorem read?_text (h : x.IsWritable) :
    x.kind.read? x.text = some x ∧ Text.IsTrimmed Text.isBlank x.text.toList := by
  cases x with
  | switch b => exact ⟨congrArg (Option.map _) (switch?_text b), isTrimmed_switchText b⟩
  | linkage l => exact ⟨congrArg (Option.map _) (Linkage.ofText?_text l), isTrimmed_linkage l⟩
  | number n => exact ⟨congrArg (Option.map _) (number?_repr n), isTrimmed_repr n.toNat⟩
  | list ts =>
    exact ⟨congrArg (some ∘ SettingValue.list) (parts_intercalate h),
      isTrimmed_intercalate_parts h⟩

end Read

section Set

theorem set_eq_ok_iff {name v : String} :
    c.set name v = .ok c' ↔
      ∃ s, Setting.ofName? name = some s ∧ c.assign? s (Text.trim v) = some c' := by
  rw [set, trySet]
  cases Setting.ofName? name with
  | none => simp [Except.map]
  | some s => cases h : c.assign? s (Text.trim v) <;> simp [h, Except.map]

theorem setPair_eq (c : Config) {pair name v : String}
    (h : pair.toList = name.toList ++ '=' :: v.toList) (hname : '=' ∉ name.toList) :
    c.setPair pair = c.set (Text.trim name) v := by
  rw [setPair, trySetPair, Text.cutAt?_eq_some_iff.2 ⟨h, hname⟩]
  simp only [String.ofList_toList, set]

/-- A setting that cannot be applied changes nothing. -/
theorem trySet_error {name v : String} {e : ConfigError} (h : c.trySet name v = (c', .error e)) :
    c' = c := by
  rw [trySet] at h
  split at h
  · exact (Prod.mk.inj h).1.symm
  · split at h
    · exact (Prod.mk.inj h).1.symm
    · simp at h

theorem trySetPair_error {pair : String} {e : ConfigError}
    (h : c.trySetPair pair = (c', .error e)) : c' = c := by
  rw [trySetPair] at h
  split at h
  · exact (Prod.mk.inj h).1.symm
  · exact trySet_error h

theorem setPair_pairText (c : Config) (h : (c'.value s).IsWritable) :
    ∃ c₁, c.setPair (c'.pairText s) = .ok c₁ ∧ c.Assigns s (c'.value s) c₁ := by
  obtain ⟨hread, htrimmed⟩ := read?_text h
  rw [kind_value] at hread
  obtain ⟨c₁, hassign, hc₁⟩ := assign?_of_read (c := c) hread
  have hname : Text.trim s.name = s.name ∧ '=' ∉ s.name.toList := by cases s <;> decide
  have hpair : (c'.pairText s).toList = s.name.toList ++ '=' :: (c'.value s).text.toList := by
    simp [pairText, valueText_eq]
  refine ⟨c₁, ?_, hc₁⟩
  rw [setPair_eq c hpair hname.2, hname.1, set_eq_ok_iff]
  exact ⟨s, Setting.ofName?_name s, by rwa [Text.trim_eq_self htrimmed]⟩

end Set

inductive Change where
  | set (name value : String)
  | setPair (pair : String)

def Change.perform (c : Config) : Change → Config × Except ConfigError Unit
  | set name v => c.trySet name v
  | setPair pair => c.trySetPair pair

def apply (c : Config) (ch : Change) : Config :=
  (ch.perform c).1

def applyAll (c : Config) (chs : List Change) : Config :=
  chs.foldl apply c

def IsWritable (c : Config) : Prop :=
  ∀ s, (c.value s).IsWritable

section Run

theorem isWritable_default : IsWritable {} := by
  intro s
  cases s with
  | defaultIdents | exportedNames | deadNames | autoexports => exact List.forall_mem_nil _
  | _ => trivial

theorem IsWritable.assign {v : String} (h : c.IsWritable) (hassign : c.assign? s v = some c') :
    c'.IsWritable := by
  obtain ⟨x, hx, hvalue, hframe⟩ := assigns_of_assign? hassign
  intro t
  by_cases ht : t = s
  · rw [ht, hvalue]
    exact isWritable_of_read hx
  · rw [hframe t ht]
    exact h t

theorem IsWritable.trySet (h : c.IsWritable) (name v : String) :
    (c.trySet name v).1.IsWritable := by
  rw [Config.trySet]
  split
  · exact h
  · split
    · exact h
    · rename_i hassign
      exact h.assign hassign

theorem IsWritable.apply (h : c.IsWritable) (ch : Change) : (c.apply ch).IsWritable := by
  cases ch with
  | set name v => exact h.trySet name v
  | setPair pair =>
    rw [Config.apply, Change.perform, trySetPair]
    split
    · exact h
    · exact h.trySet _ _

theorem IsWritable.applyAll (h : c.IsWritable) (chs : List Change) :
    (c.applyAll chs).IsWritable := by
  induction chs generalizing c with
  | nil => exact h
  | cons ch chs ih => exact ih (h.apply ch)

theorem foldlM_setPair (h : c'.IsWritable) (order : List Setting) (c : Config) :
    ∃ c₁, order.foldlM (fun c s => c.setPair (c'.pairText s)) c = .ok c₁ ∧
      ∀ t, c₁.value t = if t ∈ order then c'.value t else c.value t := by
  induction order generalizing c with
  | nil => exact ⟨c, rfl, fun t => by simp⟩
  | cons s order ih =>
    obtain ⟨c₁, h₁, hvalue, hframe⟩ := setPair_pairText c (h s)
    obtain ⟨c₂, h₂, hrest⟩ := ih c₁
    refine ⟨c₂, ?_, fun t => ?_⟩
    · rw [List.foldlM_cons, h₁]
      exact h₂
    · rw [hrest t]
      by_cases ht : t = s
      · rw [ht, hvalue, ite_self, if_pos List.mem_cons_self]
      · rw [hframe t ht]
        simp only [List.mem_cons, ht, false_or]

end Run

/-- Applying the settings of a configuration that changes have made, each written as a pair of its
name and its value, makes any configuration the same, in whatever order they are applied. -/
theorem applied_pairs_restore (chs : List Change) (c : Config) (order : List Setting)
    (horder : order.Perm Setting.all) :
    order.foldlM (fun c s => c.setPair ((applyAll {} chs).pairText s)) c =
      .ok (applyAll {} chs) := by
  obtain ⟨c₁, hrun, hvalue⟩ := foldlM_setPair (isWritable_default.applyAll chs) order c
  have hmem : ∀ s, s ∈ order := fun s => horder.mem_iff.2 (by cases s <;> decide)
  have hsame : c₁ = applyAll {} chs := ext_value fun s => by rw [hvalue s, if_pos (hmem s)]
  rw [hrun, hsame]

/-- Changes with white space and empty parts, two of which fail. -/
def spaced : List Change :=
  [.setPair "exportedFunctions= _a=b ,, _c\t", .set "globalBase" " +8 ", .set "verbose" "maybe",
    .setPair "crossModuleLinkage = 2", .setPair "assertions"]

theorem spaced_restored :
    Setting.all.reverse.Perm Setting.all ∧
      (applyAll {} spaced).exportedNames = [⟨"_a=b"⟩, ⟨"_c"⟩] ∧
      Setting.all.reverse.foldlM (fun (c : Config) s => c.setPair ((applyAll {} spaced).pairText s))
        { verbose := true, deadNames := [⟨"_d"⟩] } = .ok (applyAll {} spaced) := by
  have horder : Setting.all.reverse.Perm Setting.all := List.reverse_perm _
  exact ⟨horder, by decide +kernel, applied_pairs_restore spaced _ _ horder⟩

end Config

end CatalogLinker
