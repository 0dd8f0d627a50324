import Cartouche.Json.Form

/-!
# Reading back what was written

`ReadsBack a` says that the JSON form of a value is read as this value again, be it read from a text
or from memory, and whether the entries of its objects stand in the order in which they are written
or in the order of their keys. This module has what holds for records and variants of every type:
an object with all fields of a record has fields that hold their values (`exists_fields`), and a
field that holds a value gives it in each of the ways in which fields are taken out. So for a type
of its own there is nothing to do but to name its fields.
-/

namespace Cartouche

/-! ## Dictionaries -/

namespace Dict

variable {β : Type u}

/-- Dictionaries with the same entries are the same. -/
theorem ext {d e : Dict β} (h : d.entries = e.entries) : d = e := by
  cases d
  cases e
  cases h
  rfl

/-- An entry with a key behind all others is put at the end. -/
theorem insertEntry_of_forall_lt {key : String} {value : β} {entries : List (String × β)}
    (h : ∀ e ∈ entries, e.1 < key) : insertEntry key value entries = entries ++ [(key, value)] := by
  induction entries with
  | nil => rfl
  | cons head rest ih =>
    obtain ⟨k, v⟩ := head
    have hlt : k < key := h (k, v) List.mem_cons_self
    have hnot : ¬ key < k := fun hgt => String.lt_irrefl _ (String.lt_trans hlt hgt)
    have hne : key ≠ k := by
      rintro rfl
      exact String.lt_irrefl _ hlt
    rw [insertEntry, if_neg hnot, if_neg hne, ih fun e he => h e (List.mem_cons_of_mem _ he)]
    rfl

/-- Entries in the order of their keys are set one behind the other. -/
theorem entries_foldl_insert {d : Dict β} {more : List (String × β)}
    (h : (d.entries ++ more).Pairwise fun a b => a.1 < b.1) :
    (more.foldl (fun d (key, value) => d.insert key value) d).entries = d.entries ++ more := by
  induction more generalizing d with
  | nil => simp
  | cons head rest ih =>
    obtain ⟨key, value⟩ := head
    have hinsert : (d.insert key value).entries = d.entries ++ [(key, value)] := by
      refine insertEntry_of_forall_lt fun e he => ?_
      exact (List.pairwise_append.1 h).2.2 e he (key, value) List.mem_cons_self
    have hentries : (d.insert key value).entries ++ rest = d.entries ++ (key, value) :: rest := by
      rw [hinsert, List.append_assoc]
      rfl
    rw [List.foldl_cons, ih (by rw [hentries]; exact h), hentries]

/-- Entries that are in the order of their keys become a dictionary without changing places. -/
theorem entries_ofList {entries : List (String × β)}
    (h : entries.Pairwise fun a b => a.1 < b.1) : (ofList entries).entries = entries :=
  entries_foldl_insert (d := empty) h

/-- A dictionary is that of its entries. -/
theorem ofList_entries (d : Dict β) : ofList d.entries = d :=
  ext (entries_ofList d.ordered)

/-- Where entries are in the order of their keys, the first key does not come again. -/
theorem ne_of_ordered {key : String} {value : β} {entries : List (String × β)}
    (h : ((key, value) :: entries).Pairwise fun a b => a.1 < b.1) {e : String × β}
    (he : e ∈ entries) : e.1 ≠ key := by
  rintro rfl
  exact String.lt_irrefl _ ((List.pairwise_cons.1 h).1 e he)

/-- Among ordered entries an entry takes the place of those with its key. -/
theorem mem_insertEntry_iff {key : String} {value : β} {entries : List (String × β)}
    (h : entries.Pairwise fun a b => a.1 < b.1) {e : String × β} :
    e ∈ insertEntry key value entries ↔ e = (key, value) ∨ e ∈ entries ∧ e.1 ≠ key := by
  induction entries with
  | nil => simp [insertEntry]
  | cons head rest ih =>
    obtain ⟨k, v⟩ := head
    unfold insertEntry
    split
    · next hlt =>
      have hne : ∀ e ∈ (k, v) :: rest, e.1 ≠ key := by
        intro e he heq
        rcases List.mem_cons.1 he with rfl | he
        · exact String.lt_irrefl _ (heq ▸ hlt)
        · exact String.lt_irrefl _ (heq ▸ String.lt_trans hlt ((List.pairwise_cons.1 h).1 e he))
      rw [List.mem_cons]
      exact or_congr_right ⟨fun he => ⟨he, hne e he⟩, And.left⟩
    · split
      · next heq =>
        subst heq
        rw [List.mem_cons, List.mem_cons]
        refine or_congr_right ⟨fun he => ⟨.inr he, ne_of_ordered h he⟩, ?_⟩
        rintro ⟨rfl | he, hne⟩
        · exact absurd rfl hne
        · exact he
      · next hne =>
        rw [List.mem_cons, ih (List.pairwise_cons.1 h).2, List.mem_cons]
        constructor
        · rintro (rfl | rfl | ⟨he, hkey⟩)
          · exact .inr ⟨.inl rfl, Ne.symm hne⟩
          · exact .inl rfl
          · exact .inr ⟨.inr he, hkey⟩
        · rintro (rfl | ⟨rfl | he, hkey⟩)
          · exact .inr (.inl rfl)
          · exact .inl rfl
          · exact .inr (.inr ⟨he, hkey⟩)

/-- Inserting entries with different keys one after the other keeps all of them, and of those that
were there before the ones with other keys. -/
theorem mem_foldl_insert_iff {d : Dict β} {more : List (String × β)}
    (h : more.Pairwise fun a b => a.1 ≠ b.1) {e : String × β} :
    e ∈ (more.foldl (fun d (key, value) => d.insert key value) d).entries ↔
      e ∈ more ∨ e ∈ d.entries ∧ ∀ m ∈ more, m.1 ≠ e.1 := by
  induction more generalizing d with
  | nil => simp
  | cons head rest ih =>
    obtain ⟨key, value⟩ := head
    obtain ⟨hhead, hrest⟩ := List.pairwise_cons.1 h
    have hinsert : e ∈ (d.insert key value).entries ↔
        e = (key, value) ∨ e ∈ d.entries ∧ e.1 ≠ key :=
      mem_insertEntry_iff d.ordered
    rw [List.foldl_cons, ih hrest, hinsert, List.mem_cons]
    constructor
    · rintro (he | ⟨rfl | ⟨he, hkey⟩, hne⟩)
      · exact .inl (.inr he)
      · exact .inl (.inl rfl)
      · refine .inr ⟨he, fun m hm => ?_⟩
        rcases List.mem_cons.1 hm with rfl | hm
        · exact Ne.symm hkey
        · exact hne m hm
    · rintro ((rfl | he) | ⟨he, hne⟩)
      · exact .inr ⟨.inl rfl, fun m hm => Ne.symm (hhead m hm)⟩
      · exact .inl he
      · exact .inr ⟨.inr ⟨he, Ne.symm (hne _ List.mem_cons_self)⟩,
          fun m hm => hne m (List.mem_cons_of_mem _ hm)⟩

/-- Entries with distinct keys are all kept. -/
theorem mem_ofList_iff {entries : List (String × β)}
    (h : entries.Pairwise fun a b => a.1 ≠ b.1) {e : String × β} :
    e ∈ (ofList entries).entries ↔ e ∈ entries := by
  rw [ofList, mem_foldl_insert_iff h]
  simp [empty]

end Dict

namespace Json

/-! ## The order of entries -/

/-- A value with the entries of its objects in the order in which they are written, or in the order
of their keys. -/
def arranged (sorted : Bool) (json : Json) : Json := if sorted then json.normal else json

/-- The items of an array are normalized one by one. -/
theorem normalItems_eq_map (items : List Json) : normalItems items = items.map normal := by
  induction items with
  | nil => rfl
  | cons item rest ih => rw [normalItems, ih, List.map_cons]

/-- The values of an object are normalized one by one, under the keys they have. -/
theorem normalEntries_eq_map (entries : List (String × Json)) :
    normalEntries entries = entries.map fun (key, value) => (key, value.normal) := by
  induction entries with
  | nil => rfl
  | cons entry rest ih => rw [normalEntries, ih, List.map_cons]

/-- Arranging an array arranges its items: only entries of objects change places. -/
theorem arranged_array (sorted : Bool) (items : List Json) :
    (array items).arranged sorted = array (items.map (arranged sorted)) := by
  cases sorted with
  | false =>
    have hid : arranged false = id := rfl
    rw [hid, List.map_id]
    rfl
  | true =>
    have hnormal : arranged true = normal := rfl
    rw [hnormal, normal, normalItems_eq_map]

/-- Arranging a variant arranges its content, since an object with one entry has only one order. -/
theorem arranged_ofVariant (sorted : Bool) (name : String) (content : Json) :
    (ofVariant name content).arranged sorted = ofVariant name (content.arranged sorted) := by
  cases sorted with
  | false => rfl
  | true => rfl

/-- The test for repeated keys says that no two entries have the same key. -/
theorem distinctKeys_iff {entries : List (String × Json)} :
    distinctKeys entries ↔ entries.Pairwise fun a b => a.1 ≠ b.1 := by
  induction entries with
  | nil => simp [distinctKeys]
  | cons entry rest ih =>
    obtain ⟨key, value⟩ := entry
    have hhead : rest.all (·.1 != key) ↔ ∀ e ∈ rest, key ≠ e.1 := by
      rw [List.all_eq_true]
      exact forall₂_congr fun e _ => by rw [bne_iff_ne, ne_comm]
    rw [distinctKeys, Bool.and_eq_true, ih, List.pairwise_cons, hhead]

/-- An object with distinct keys has the same entries in every arrangement, up to the arrangement of
their values. -/
theorem exists_arranged_object (sorted : Bool) {entries : List (String × Json)}
    (h : distinctKeys entries) :
    ∃ entries', (object entries).arranged sorted = object entries' ∧ distinctKeys entries' ∧
      ∀ e', e' ∈ entries' ↔ ∃ e ∈ entries, (e.1, e.2.arranged sorted) = e' := by
  cases sorted with
  | false =>
    refine ⟨entries, rfl, h, fun e' => ?_⟩
    simp [arranged]
  | true =>
    have hdistinct : (normalEntries entries).Pairwise fun a b => a.1 ≠ b.1 := by
      rw [normalEntries_eq_map]
      exact List.pairwise_map.2 (distinctKeys_iff.1 h)
    refine ⟨(Dict.ofList (normalEntries entries)).entries, rfl, ?_, fun e' => ?_⟩
    · refine distinctKeys_iff.2 ((Dict.ofList (normalEntries entries)).ordered.imp ?_)
      rintro a b hlt heq
      exact String.lt_irrefl _ (heq ▸ hlt)
    · rw [Dict.mem_ofList_iff hdistinct, normalEntries_eq_map, List.mem_map]
      rfl

end Json

/-! ## Values of one type -/

/-- The JSON form of the value is read as the value, from wherever it is read and in whichever order
the entries of its objects stand. -/
def ReadsBack {α : Type} [JsonForm α] (a : α) : Prop :=
  ∀ origin sorted, JsonForm.ofJson? origin ((JsonForm.toJson a).arranged sorted) = some a

section

variable {α : Type} [JsonForm α]

/-- A form without objects reads back if it is read as it is written. -/
theorem readsBack_of_arranged {a : α}
    (h : ∀ sorted, (JsonForm.toJson a).arranged sorted = JsonForm.toJson a)
    (hread : ∀ origin, JsonForm.ofJson? origin (JsonForm.toJson a) = some a) : ReadsBack a := by
  intro origin sorted
  rw [h sorted]
  exact hread origin

/-- A truth value is read back. -/
theorem readsBack_bool (b : Bool) : ReadsBack b :=
  readsBack_of_arranged (by rintro (_ | _) <;> rfl) fun origin =>
    JsonForm.ofJson?_toJson_bool origin b

/-- A text is read back, whatever characters are in it. -/
theorem readsBack_string (s : String) : ReadsBack s :=
  readsBack_of_arranged (by rintro (_ | _) <;> rfl) fun origin =>
    JsonForm.ofJson?_toJson_string origin s

/-- A character is read back. -/
theorem readsBack_char (c : Char) : ReadsBack c :=
  readsBack_of_arranged (by rintro (_ | _) <;> rfl) fun origin =>
    JsonForm.ofJson?_toJson_char origin c

/-- A count is read back, up to the largest one. -/
theorem readsBack_uint64 (n : UInt64) : ReadsBack n :=
  readsBack_of_arranged (by rintro (_ | _) <;> rfl) fun origin =>
    JsonForm.ofJson?_toJson_uint64 origin n

/-- A finite double is written as a number. The others are written as `null`, which is no number. -/
theorem toJson_float {x : Float} (h : x.isFinite) : JsonForm.toJson x = .number (.float x) :=
  if_pos h

/-- A finite double is read back, bit for bit. -/
theorem readsBack_float {x : Float} (h : x.isFinite) : ReadsBack x := by
  refine readsBack_of_arranged (fun sorted => ?_) fun origin =>
    JsonForm.ofJson?_toJson_float origin h
  rw [toJson_float h]
  cases sorted <;> rfl

/-- The form of an optional value reads back when `null` is not the form of a value. -/
theorem readsBack_option {o : Option α}
    (h : ∀ a, o = some a → ReadsBack a ∧ ∀ sorted, (JsonForm.toJson a).arranged sorted ≠ .null) :
    ReadsBack o := by
  intro origin sorted
  cases o with
  | none => cases sorted <;> rfl
  | some a =>
    obtain ⟨hread, hnull⟩ := h a rfl
    have hsome : ∀ json : Json, json ≠ .null →
        JsonForm.ofJson? origin json = (JsonForm.ofJson? origin json : Option α).map some := by
      intro json hne
      cases json with
      | null => exact absurd rfl hne
      | _ => rfl
    show JsonForm.ofJson? origin ((JsonForm.toJson a).arranged sorted) = _
    rw [hsome _ (hnull sorted), hread origin sorted]
    rfl

/-- What is mapped and taken back item by item is the same list. -/
theorem mapM_map_eq_some {β : Type u} {γ : Type v} {f : γ → Option β} {g : β → γ} {items : List β}
    (h : ∀ b ∈ items, f (g b) = some b) : (items.map g).mapM f = some items := by
  induction items with
  | nil => rfl
  | cons b rest ih =>
    rw [List.map_cons, List.mapM_cons, h b List.mem_cons_self,
      ih fun c hc => h c (List.mem_cons_of_mem _ hc)]
    rfl

/-- A list is read item by item. -/
theorem readsBack_list {items : List α} (h : ∀ a ∈ items, ReadsBack a) : ReadsBack items := by
  intro origin sorted
  show JsonForm.ofJson? origin ((Json.array (items.map JsonForm.toJson)).arranged sorted) = _
  rw [Json.arranged_array, List.map_map]
  exact mapM_map_eq_some fun a ha => h a ha origin sorted

/-- The entries of a dictionary are in the order of their keys already. -/
theorem arranged_toJson_dict (sorted : Bool) (d : Dict α) :
    (JsonForm.toJson d).arranged sorted =
      .object (d.entries.map fun e => (e.1, (JsonForm.toJson e.2).arranged sorted)) := by
  show (Json.object (d.entries.map fun e => (e.1, JsonForm.toJson e.2))).arranged sorted = _
  cases sorted with
  | false => rfl
  | true =>
    have hnormal : Json.arranged true = Json.normal := rfl
    rw [hnormal, Json.normal, Json.normalEntries_eq_map, List.map_map]
    exact congrArg Json.object (Dict.entries_ofList (List.pairwise_map.2 d.ordered))

/-- A dictionary is read entry by entry. -/
theorem readsBack_dict {d : Dict α} (h : ∀ e ∈ d.entries, ReadsBack e.2) : ReadsBack d := by
  intro origin sorted
  rw [arranged_toJson_dict]
  show ((d.entries.map fun e => (e.1, (JsonForm.toJson e.2).arranged sorted)).mapM
    fun (entry : String × Json) => (JsonForm.ofJson? origin entry.2).map (entry.1, ·)).map
      Dict.ofList = some d
  rw [mapM_map_eq_some fun e he => by rw [h e he origin sorted]; rfl, Option.map_some,
    Dict.ofList_entries]

end

/-! ## Fields of records -/

namespace Json.Fields

variable {α : Type} [JsonForm α] {fields : Fields} {name : String} {a : α}

/-- The value under a name is read as this value. -/
def Holds (fields : Fields) (name : String) (a : α) : Prop :=
  ∃ json, fields.find? name = some json ∧ JsonForm.ofJson? fields.origin json = some a

/-- A field that holds a value is found where it is required. -/
theorem Holds.required (h : fields.Holds name a) : fields.required name = some a := by
  obtain ⟨json, hfind, hread⟩ := h
  rw [Fields.required, hfind]
  exact hread

/-- A field that holds a value is taken in place of its default. -/
theorem Holds.withDefault (h : fields.Holds name a) (default : α) :
    fields.withDefault name default = some a := by
  obtain ⟨json, hfind, hread⟩ := h
  rw [Fields.withDefault, hfind]
  exact hread

/-- A field that holds an optional value is found, also where this is none and the field is
`null`. -/
theorem Holds.optional {o : Option α} (h : fields.Holds name o) :
    fields.optional name = some o := by
  obtain ⟨json, hfind, hread⟩ := h
  rw [Fields.optional, hfind]
  cases json with
  | null => exact hread
  | _ => exact hread

/-- The default stands for a field that is absent. -/
theorem withDefault_of_absent (h : fields.find? name = none) (default : α) :
    fields.withDefault name default = some default := by
  rw [withDefault, h]

end Json.Fields

/-- Among distinct keys an entry is found. -/
theorem Json.find?_of_mem {entries : List (String × Json)} {e : String × Json}
    (h : distinctKeys entries) (hmem : e ∈ entries) :
    entries.find? (·.1 == e.1) = some e := by
  have hdistinct := distinctKeys_iff.1 h
  clear h
  induction entries with
  | nil => cases hmem
  | cons head rest ih =>
    obtain ⟨hhead, hrest⟩ := List.pairwise_cons.1 hdistinct
    rcases List.mem_cons.1 hmem with rfl | hmem
    · simp
    · have hne : (head.1 == e.1) = false := beq_eq_false_iff_ne.2 (hhead e hmem)
      rw [List.find?_cons, hne]
      exact ih hmem hrest

/-- An object with distinct declared keys has fields that hold what was written, and no others. -/
theorem exists_fields (origin : Json.Origin) (sorted : Bool) (names : List String)
    (entries : List (String × Json)) (hnames : ∀ e ∈ entries, e.1 ∈ names)
    (hdistinct : Json.distinctKeys entries) :
    ∃ fields, Json.Fields.of? origin names ((Json.object entries).arranged sorted) = some fields ∧
      (∀ {α : Type} [JsonForm α] (name : String) (a : α),
        (name, JsonForm.toJson a) ∈ entries → ReadsBack a → fields.Holds name a) ∧
      ∀ name, (∀ e ∈ entries, e.1 ≠ name) → fields.find? name = none := by
  obtain ⟨entries', hform, hdistinct', hmem⟩ := Json.exists_arranged_object sorted hdistinct
  have hpresent : entries'.filter (fun e => names.contains e.1) = entries' := by
    refine List.filter_eq_self.2 fun e' he' => ?_
    obtain ⟨e, he, rfl⟩ := (hmem e').1 he'
    exact List.contains_iff_mem.2 (hnames e he)
  refine ⟨{ present := entries', keyed := true, origin }, ?_, ?_, ?_⟩
  · rw [hform]
    show (if Json.distinctKeys (entries'.filter fun e => names.contains e.1) then _ else _) = _
    rw [hpresent, if_pos hdistinct']
  · intro α _ name a hentry hread
    have he' := (hmem (name, (JsonForm.toJson a).arranged sorted)).2 ⟨_, hentry, rfl⟩
    refine ⟨_, ?_, hread origin sorted⟩
    rw [Json.Fields.find?, Json.find?_of_mem hdistinct' he']
    rfl
  · intro name habsent
    have hnone : entries'.find? (·.1 == name) = none := by
      rw [List.find?_eq_none]
      intro e' he' heq
      obtain ⟨e, he, rfl⟩ := (hmem e').1 he'
      exact habsent e he (beq_iff_eq.1 heq)
    rw [Json.Fields.find?, hnone]
    rfl

/-- A record that is written as an object is read field by field. -/
theorem readsBack_record {α : Type} [JsonForm α] {a : α} {names : List String}
    {entries : List (String × Json)} {read : Json.Fields → Option α}
    (hread : ∀ origin json,
      JsonForm.ofJson? origin json = (Json.Fields.of? origin names json).bind read)
    (hform : JsonForm.toJson a = .object entries) (hnames : ∀ e ∈ entries, e.1 ∈ names)
    (hdistinct : Json.distinctKeys entries)
    (hfields : ∀ fields : Json.Fields,
      (∀ {β : Type} [JsonForm β] (name : String) (b : β),
        (name, JsonForm.toJson b) ∈ entries → ReadsBack b → fields.Holds name b) →
      (∀ name, (∀ e ∈ entries, e.1 ≠ name) → fields.find? name = none) →
      read fields = some a) : ReadsBack a := by
  intro origin sorted
  obtain ⟨fields, hof, hholds, habsent⟩ :=
    exists_fields origin sorted names entries hnames hdistinct
  rw [hread, hform, hof]
  exact hfields fields hholds habsent

/-- The single field of a record is read. -/
theorem field?_ofField {α : Type} [JsonForm α] (origin : Json.Origin) (sorted : Bool)
    (name : String) {a : α} (h : ReadsBack a) :
    ((Json.ofField name a).arranged sorted).field? origin name = some a := by
  obtain ⟨fields, hof, hholds, -⟩ := exists_fields origin sorted [name]
    [(name, JsonForm.toJson a)] (by simp) (by simp [Json.distinctKeys])
  rw [Json.field?, Json.ofField, hof, Option.bind_some]
  exact (hholds name a (by simp) h).required

/-- The single field of a record is read where the record is the content of a variant. -/
theorem contentField?_ofField {α : Type} [JsonForm α] (origin : Json.Origin) (sorted : Bool)
    (name : String) {a : α} (h : ReadsBack a) :
    ((Json.ofField name a).arranged sorted).contentField? origin name = some a := by
  have hform : (Json.ofField name a).arranged sorted =
      .object [(name, (JsonForm.toJson a).arranged sorted)] :=
    Json.arranged_ofVariant sorted name (JsonForm.toJson a)
  rw [← field?_ofField origin sorted name h, hform]
  cases origin with
  | text => rfl
  | memory => rfl

end Cartouche
