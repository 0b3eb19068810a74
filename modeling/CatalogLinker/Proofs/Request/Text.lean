import CatalogLinker.Proofs.Outcome
import CatalogLinker.Proofs.Text.Search
import CatalogLinker.Request
import Mathlib.Data.Set.List

namespace CatalogLinker

namespace ValueKind

def codes : List Char :=
  ['v', 'i', 'j', 'f', 'd']

variable {c : Char} {k : ValueKind}

theorem mem_codes_iff : c ∈ codes ↔ ∃ k : ValueKind, k.code = c := by
  constructor
  · intro h
    simp only [codes, List.mem_cons, List.not_mem_nil, or_false] at h
    obtain rfl | rfl | rfl | rfl | rfl := h
    exacts [⟨void, rfl⟩, ⟨i32, rfl⟩, ⟨i64, rfl⟩, ⟨f32, rfl⟩, ⟨f64, rfl⟩]
  · rintro ⟨k, rfl⟩
    cases k <;> decide

end ValueKind

namespace Request

inductive IsRequest : List Char → Prop
  | bare {t : List Char} (hident : t ≠ []) (hcolon : ':' ∉ t) : IsRequest t
  | signed {t u : List Char} (hident : t ≠ []) (hcolon : ':' ∉ t) (hsig : u ≠ [])
      (hcodes : ∀ c ∈ u, c ∈ ValueKind.codes) : IsRequest (t ++ ':' :: u)

variable {s : String} {r : Request} {t u : List Char} {ks : List ValueKind}

theorem kinds_map_code (ks : List ValueKind) : kinds (ks.map ValueKind.code) = .ok ks := by
  induction ks with
  | nil => rfl
  | cons k ks ih =>
    rw [List.map_cons, kinds, ValueKind.ofCode?_code]
    simp only [ih, Except.map]

theorem eq_map_code_of_kinds (h : kinds u = .ok ks) : u = ks.map ValueKind.code := by
  induction u generalizing ks with
  | nil => rw [← Except.ok.inj h, List.map_nil]
  | cons c u ih =>
    rw [kinds] at h
    cases hc : ValueKind.ofCode? c with
    | none => simp [hc] at h
    | some k =>
      simp only [hc] at h
      obtain ⟨ks', hks, rfl⟩ := map_ok h
      rw [List.map_cons, ValueKind.code_of_ofCode? hc, ← ih hks]

theorem kinds_eq_ok_iff : kinds u = .ok ks ↔ u = ks.map ValueKind.code :=
  ⟨eq_map_code_of_kinds, fun h => h ▸ kinds_map_code ks⟩

theorem exists_eq_map_code_iff :
    (∃ ks : List ValueKind, u = ks.map ValueKind.code) ↔ ∀ c ∈ u, c ∈ ValueKind.codes := by
  have hrange := Set.ext_iff.1 (Set.range_list_map ValueKind.code) u
  simpa only [Set.mem_range, Set.mem_ofPred_eq, ValueKind.mem_codes_iff, eq_comm] using hrange

theorem ofText_bare (hcolon : ':' ∉ s.toList) :
    ofText s = .ok r ↔ s ≠ "" ∧ r = { ident := ⟨s⟩ } := by
  rw [ofText, Text.cutAt?_eq_none_iff.2 hcolon]
  by_cases hs : s = ""
  · simp [hs]
  · simp [hs, @eq_comm _ r]

theorem ofText_signed (hs : s.toList = t ++ ':' :: u) (hcolon : ':' ∉ t) :
    ofText s = .ok r ↔ t ≠ [] ∧ ∃ ret params, u = (ret :: params).map ValueKind.code ∧
      r = ⟨⟨String.ofList t⟩, some ret, some params⟩ := by
  simp only [← kinds_eq_ok_iff]
  rw [ofText, Text.cutAt?_eq_some_iff.2 ⟨hs, hcolon⟩]
  by_cases ht : t = []
  · simp [ht]
  · cases hu : kinds u with
    | error c => simp [hu, ht]
    | ok ks => cases ks <;> simp [hu, ht, @eq_comm _ r]

theorem isRequest_bare_iff (hcolon : ':' ∉ t) : IsRequest t ↔ t ≠ [] := by
  constructor
  · rintro (⟨hident, -⟩ | ⟨-, -, -, -⟩)
    · exact hident
    · simp at hcolon
  · exact fun hident => .bare hident hcolon

theorem isRequest_signed_iff (hcolon : ':' ∉ t) :
    IsRequest (t ++ ':' :: u) ↔ t ≠ [] ∧ u ≠ [] ∧ ∀ c ∈ u, c ∈ ValueKind.codes := by
  constructor
  · intro h
    generalize hs : t ++ ':' :: u = s at h
    cases h with
    | bare hident hbare => simp [← hs] at hbare
    | signed hident hcolon' hsig hcodes =>
      obtain ⟨rfl, rfl⟩ := Text.cut_inj hs hcolon hcolon'
      exact ⟨hident, hsig, hcodes⟩
  · rintro ⟨hident, hsig, hcodes⟩
    exact .signed hident hcolon hsig hcodes

theorem exists_ofText_iff : (∃ r, ofText s = .ok r) ↔ IsRequest s.toList := by
  by_cases hcolon : ':' ∈ s.toList
  · obtain ⟨t, u, hs, ht⟩ := List.eq_append_cons_of_mem hcolon
    simp only [ofText_signed hs ht, hs, isRequest_signed_iff ht, ← exists_eq_map_code_iff]
    constructor
    · rintro ⟨r, hident, ret, params, rfl, -⟩
      exact ⟨hident, by simp, _, rfl⟩
    · rintro ⟨hident, hsig, ks, rfl⟩
      obtain ⟨ret, params, rfl⟩ := List.exists_cons_of_ne_nil (mt (congrArg _) hsig)
      exact ⟨_, hident, ret, params, rfl, rfl⟩
  · simp [ofText_bare hcolon, isRequest_bare_iff hcolon]

theorem text_of_ofText (h : ofText s = .ok r) : r.text = s := by
  by_cases hcolon : ':' ∈ s.toList
  · obtain ⟨t, u, hs, ht⟩ := List.eq_append_cons_of_mem hcolon
    obtain ⟨-, ret, params, rfl, rfl⟩ := (ofText_signed hs ht).1 h
    rw [← String.toList_inj, hs]
    simp [text, signature]
  · obtain ⟨-, rfl⟩ := (ofText_bare hcolon).1 h
    rfl

theorem ofText_text (hident : r.ident.text ≠ "") (hcolon : ':' ∉ r.ident.text.toList)
    (hsig : r.ret.isSome = r.params.isSome) : ofText r.text = .ok r := by
  obtain ⟨⟨i⟩, ret, params⟩ := r
  cases ret <;> cases params
  · exact (ofText_bare hcolon).2 ⟨hident, rfl⟩
  · simp at hsig
  · simp at hsig
  · rename_i ret params
    have htext : (text ⟨⟨i⟩, some ret, some params⟩).toList =
        i.toList ++ ':' :: (ret :: params).map ValueKind.code := by simp [text, signature]
    refine (ofText_signed htext hcolon).2 ⟨by simpa using hident, ret, params, rfl, ?_⟩
    rw [String.ofList_toList]

/-- A text is read exactly if it is the text of a request, and then it is the text of what it is read
as. A request with an identifier that has no colon, of whose signature all or nothing is known, is
what its text is read as. -/
theorem ofText_inverts_text :
    (∀ s : String, (∃ r, ofText s = .ok r) ↔ IsRequest s.toList) ∧
    (∀ s r, ofText s = .ok r → r.text = s) ∧
    ∀ r : Request, r.ident.text ≠ "" → ':' ∉ r.ident.text.toList → r.ret.isSome = r.params.isSome →
      ofText r.text = .ok r :=
  ⟨fun _ => exists_ofText_iff, fun _ _ => text_of_ofText, fun _ => ofText_text⟩

def memcpy : Request :=
  ⟨⟨"memcpy"⟩, some .i32, some [.i32, .i32, .i32]⟩

theorem memcpy_inverted :
    (∃ r, ofText "memcpy:iiii" = .ok r) ∧ memcpy.text = "memcpy:iiii" ∧
      ofText memcpy.text = .ok memcpy := by
  obtain ⟨haccepted, hwritten, hread⟩ := ofText_inverts_text
  have hcodes : ∀ c ∈ "iiii".toList, c ∈ ValueKind.codes := by simp [ValueKind.codes]
  have hrequest : IsRequest ("memcpy".toList ++ ':' :: "iiii".toList) :=
    .signed (by decide) (by decide) (by decide) hcodes
  refine ⟨(haccepted _).2 hrequest, hwritten _ _ (by decide +kernel), ?_⟩
  exact hread memcpy (by decide) (by decide) rfl

end Request

end CatalogLinker
