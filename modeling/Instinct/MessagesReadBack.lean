/-
Instinct/MessagesReadBack.lean

Which messages are read back as they were stored.

Both inserts write the same row (`messageRow_eq`).  `assistant_id` is tested under a
name that no context has, so that it is never stored, and a sub-message in which nothing
is set is stored as NULL.  `messages_read_back_iff` puts the columns together.
-/
import Instinct.MessageRows

namespace Instinct.MessageRows

open Effects JsonMessages ProtoJson StructConversion Tables

/-! ### The row of a message -/

section Row

variable {context : SqlContext} {name tested : String}

theorem text_of_textMember {s : String} (h : context name = textMember s) (hs : s ≠ "") :
    text context name = .ok (some (.plain s)) := by
  rw [text, h, textMember, if_neg hs]
  simp only [hs, if_false]

theorem text_of_enumMember {e : EnumType} {n : Int} (h : context name = enumMember e n)
    (hn : n ≠ 0) (hname : e.valueName n ≠ "") :
    text context name = .ok (some (.plain (e.valueName n))) := by
  rw [text, h, enumMember, if_neg hn]
  simp only [hname, if_false]

theorem textIf_of_textMember {s : String} (h : context name = textMember s) :
    textIf context name name = .ok (if isBlankString s then none else some (.plain s)) := by
  by_cases hs : s = ""
  · subst hs
    rw [textIf, hasMember, h]
    rfl
  · have hmember : hasMember context name = true := by
      rw [hasMember, h, textMember, if_neg hs]
      rfl
    have hblank : isNotBlank context name = .ok (isNotBlankString s) := by
      rw [isNotBlank, h, textMember, if_neg hs]
    rw [textIf, if_pos hmember, hblank, text_of_textMember h hs]
    cases hb : isBlankString s <;> 
      simp [isNotBlankString, hb, bind, Except.bind, pure, Except.pure]

theorem textIf_of_untested (h : context tested = none) : textIf context tested name = .ok none := by
  have hmember : ¬ hasMember context tested = true := by
    rw [hasMember, h]
    exact Bool.false_ne_true
  exact if_neg hmember

theorem timestampIf_of_numberMember {n : Int} (h : context name = numberMember n) :
    timestampIf context name = .ok (if n = 0 then none else some n) := by
  by_cases hn : n = 0
  · rw [timestampIf, hasMember, h, numberMember, if_pos hn, if_pos hn]
    rfl
  · rw [timestampIf, hasMember, isTruthy, timestamp, h, numberMember, if_neg hn, if_neg hn]
    simp [hn]

theorem stringifyIf_of_missing (h : context name = none) :
    stringifyIf context name = .ok none := by
  rw [stringifyIf, hasMember, h]
  rfl

theorem stringifyIf_of_json {j : ProtoJson.Json} (h : context name = some (.json j)) :
    stringifyIf context name = .ok (if isComposite j then some (.json j) else none) := by
  rw [stringifyIf, hasMember, stringify, h]
  rfl

theorem stringifyIf_of_struct {j : JsonStructs.Json} (h : context name = some (.struct j)) :
    stringifyIf context name = .ok (if j.isComposite then some (.struct j) else none) := by
  rw [stringifyIf, hasMember, stringify, h]
  rfl

theorem stringifyIf_of_itemsMember {t : String} {items : List (ProtoJson.Message schema t)}
    (h : context name = itemsMember items) :
    stringifyIf context name = .ok (if items.isEmpty then none
      else some (.json (.array (items.map fun item => convertMessageToJsonObject {} item)))) := by
  by_cases hitems : items.isEmpty = true
  · rw [stringifyIf_of_missing (h.trans (if_pos hitems)), if_pos hitems]
  · rw [stringifyIf_of_json (h.trans (if_neg hitems)), if_neg hitems]
    rfl

end Row

/-- The text of a message, or NULL where nothing in it is set. -/
def messageText {t : String} (message : ProtoJson.Message schema t) : Option Text :=
  if isComposite (convertMessageToJsonObject {} message) then
    some (.json (convertMessageToJsonObject {} message))
  else none

/-- The text of the metadata. -/
def structText (j : JsonStructs.Json) : Option Text :=
  if j.isComposite then some (.struct j) else none

/-- The text of a repeated field. -/
def itemsText {t : String} (items : List (ProtoJson.Message schema t)) : Option Text :=
  if items.isEmpty then none
  else some (.json (.array (items.map fun item => convertMessageToJsonObject {} item)))

/-- The row of a message under an id. -/
def Message.row (message : Message) (id : String) (metadata : Option JsonStructs.Json) :
    MessageRow where
  id := some (.plain id)
  threadId := some (.plain message.threadId)
  status := some (.plain (messageStatus.valueName message.status))
  incompleteDetails := message.incompleteDetails.bind messageText
  completedAt := if message.completedAt = 0 then none else some message.completedAt
  incompletedAt := if message.incompletedAt = 0 then none else some message.incompletedAt
  role := some (.plain (messageRole.valueName message.role))
  content := itemsText message.content
  assistantId := none
  runId := if isBlankString message.runId then none else some (.plain message.runId)
  attachments := itemsText message.attachments
  metadata := metadata.bind structText

/-- What the checks of an insert let pass. -/
structure Accepted (id : String) (message : Message) : Prop where
  id : id ≠ ""
  threadId : message.threadId ≠ ""
  status : message.status ≠ 0
  role : messageRole.Declares message.role ∧ message.role ≠ 0
  content : message.content ≠ []
  items : ∀ item ∈ message.content, ∃ vs ∈ item.fields, vs ≠ []

section Accepted

variable {id : String} {message : Message} {metadata : Option JsonStructs.Json}

theorem valueName_of_not_declares {e : EnumType} {n : Int} (h : ¬ e.Declares n) :
    e.valueName n = "UNKNOWN_ENUM_VALUE_" ++ e.name ++ "_" ++ toString n := by
  have hnone : e.values.find? (fun v => v.2 = n) = none := by
    refine List.find?_eq_none.mpr fun v hv heq => h ?_
    exact List.mem_map.mpr ⟨v, hv, of_decide_eq_true heq⟩
  rw [EnumType.valueName, hnone]

/-- A name that is made up starts with a capital letter. -/
theorem head?_valueName_of_not_declares {e : EnumType} {n : Int} (h : ¬ e.Declares n) :
    (e.valueName n).toList.head? = some 'U' := by
  rw [valueName_of_not_declares h, String.toList_append, String.toList_append,
    String.toList_append, List.append_assoc, List.append_assoc]
  rfl

theorem valueName_mem_of_declares {e : EnumType} {n : Int} (h : e.Declares n) :
    e.valueName n ∈ e.values.map Prod.fst := by
  obtain ⟨v, hv, rfl⟩ := List.mem_map.mp h
  rw [EnumType.valueName]
  rcases hfind : e.values.find? (fun w => w.2 = v.2) with - | w
  · exact absurd (List.find?_eq_none.mp hfind v hv) (by simp)
  · rw [hfind]
    exact List.mem_map_of_mem (f := Prod.fst) (List.mem_of_find?_eq_some hfind)

theorem valueName_ne_empty {e : EnumType} (he : "" ∉ e.values.map Prod.fst) (n : Int) :
    e.valueName n ≠ "" := by
  by_cases hn : e.Declares n
  · intro hempty
    exact he (hempty ▸ valueName_mem_of_declares hn)
  · intro hempty
    have hhead := head?_valueName_of_not_declares hn
    rw [hempty] at hhead
    cases hhead

/-- The exact name of a declared number leads back to it. -/
theorem numberOf_valueName_iff {e : EnumType} {n : Int} :
    numberOf e (e.valueName n) = some n ↔ e.Declares n := by
  constructor
  · intro h
    obtain ⟨v, hv, rfl⟩ := Option.map_eq_some_iff.mp h
    exact List.mem_map_of_mem (List.mem_of_find?_eq_some hv)
  · intro h
    rw [EnumType.valueName]
    rcases hfind : e.values.find? (fun v => v.2 = n) with - | v
    · obtain ⟨v, hv, hvn⟩ := List.mem_map.mp h
      exact absurd (List.find?_eq_none.mp hfind v hv) (by simpa using hvn)
    · have hv : v.2 = n := by simpa using List.find?_some hfind
      rw [hfind, numberOf, find?_key e.distinct (List.mem_of_find?_eq_some hfind),
        Option.map_some, hv]

theorem ne_empty_of_isSome {s : String} (h : (textMember s).isSome = true) : s ≠ "" := by
  rintro rfl
  cases h

theorem ne_zero_of_isSome {e : EnumType} {n : Int} (h : (enumMember e n).isSome = true) :
    n ≠ 0 := by
  rintro rfl
  cases h

/-- A message in which nothing is set is null. -/
theorem set_of_checkContentItem {item : ProtoJson.Message schema "MessageContent"}
    (h : checkContentItem (convertMessageToJsonObject {} item) = .ok ()) :
    ∃ vs ∈ item.fields, vs ≠ [] := by
  by_contra hnone
  have hunset : ∀ vs ∈ item.fields, vs = [] := by simpa using hnone
  rw [convertMessageToJsonObject, ofMembers_eq_null (forall₂_fits_of_hasKind item.hasKind) hunset]
    at h
  cases h

theorem accepted_of_checks
    (hpresence : checkPresence (message.toContext id metadata)
      ["id", "thread_id", "content", "role", "status"] = .ok ())
    (hcontent : checkContent (message.toContext id metadata) = .ok ())
    (hknown : checkRole (message.toContext id metadata) = .ok ()) :
    Accepted id message := by
  have hmember : ∀ name ∈ ["id", "thread_id", "content", "role", "status"],
      hasMember (message.toContext id metadata) name = true := fun name hname =>
    assertTrue_eq_ok.mp (forM_eq_ok.mp hpresence name hname)
  have hitems : message.content ≠ [] := by
    intro hempty
    have hmem : (itemsMember message.content).isSome = true := hmember "content" (by simp)
    rw [hempty] at hmem
    cases hmem
  have hrole : message.role ≠ 0 := ne_zero_of_isSome (hmember "role" (by simp))
  have hmembers : message.toContext id metadata "content"
      = some (.json (.array (message.content.map fun item =>
        convertMessageToJsonObject {} item))) :=
    if_neg fun h => hitems (List.isEmpty_iff.mp h)
  have hname : message.toContext id metadata "role"
      = some (.json (.string (messageRole.valueName message.role))) := if_neg hrole
  rw [checkContent, hmembers] at hcontent
  rw [checkRole, hname] at hknown
  have hdeclares : messageRole.Declares message.role := by
    by_contra hnot
    have hhead := head?_valueName_of_not_declares hnot
    rcases assertTrue_eq_ok.mp hknown with heq | heq <;> rw [heq] at hhead <;>
      exact absurd hhead (by decide)
  exact
    { id := ne_empty_of_isSome (hmember "id" (by simp))
      threadId := ne_empty_of_isSome (hmember "thread_id" (by simp))
      status := ne_zero_of_isSome (hmember "status" (by simp))
      role := ⟨hdeclares, hrole⟩
      content := hitems
      items := fun item hitem =>
        set_of_checkContentItem (forM_eq_ok.mp hcontent _ (List.mem_map_of_mem hitem)) }

theorem accepted_of_checkOneMessage
    (h : checkOneMessage (message.toContext id metadata) = .ok ()) : Accepted id message := by
  obtain ⟨⟨⟩, hpresence, h⟩ := checks_eq_ok.mp h
  obtain ⟨⟨⟩, hcontent, hknown⟩ := checks_eq_ok.mp h
  exact accepted_of_checks hpresence hcontent hknown

theorem accepted_of_checkManyMessages
    (h : checkManyMessages (message.toContext id metadata) = .ok ()) : Accepted id message := by
  obtain ⟨⟨⟩, hpresence, h⟩ := checks_eq_ok.mp h
  obtain ⟨⟨⟩, -, h⟩ := checks_eq_ok.mp h
  obtain ⟨⟨⟩, hcontent, hknown⟩ := checks_eq_ok.mp h
  exact accepted_of_checks hpresence hcontent hknown

/-- Both templates write the same row. -/
theorem messageRow_eq (h : Accepted id message) {content : Except Exn (Option Text)}
    (hcontent : content = .ok (itemsText message.content)) :
    messageRow (message.toContext id metadata) content = .ok (message.row id metadata) := by
  have hid : text (message.toContext id metadata) "id" = .ok (some (.plain id)) :=
    text_of_textMember rfl h.id
  have hthread : text (message.toContext id metadata) "thread_id"
      = .ok (some (.plain message.threadId)) := text_of_textMember rfl h.threadId
  have hstatus : text (message.toContext id metadata) "status"
      = .ok (some (.plain (messageStatus.valueName message.status))) :=
    text_of_enumMember rfl h.status (valueName_ne_empty (by decide) _)
  have hdetails : stringifyIf (message.toContext id metadata) "incomplete_details"
      = .ok (message.incompleteDetails.bind messageText) := by
    rcases hd : message.incompleteDetails with - | details
    · exact stringifyIf_of_missing (congrArg (Option.map _) hd)
    · exact stringifyIf_of_json (congrArg (Option.map _) hd)
  have hcompleted : timestampIf (message.toContext id metadata) "completed_at"
      = .ok (if message.completedAt = 0 then none else some message.completedAt) :=
    timestampIf_of_numberMember rfl
  have hincompleted : timestampIf (message.toContext id metadata) "incompleted_at"
      = .ok (if message.incompletedAt = 0 then none else some message.incompletedAt) :=
    timestampIf_of_numberMember rfl
  have hrole : text (message.toContext id metadata) "role"
      = .ok (some (.plain (messageRole.valueName message.role))) :=
    text_of_enumMember rfl h.role.2 (valueName_ne_empty (by decide) _)
  -- no context has the name that is tested for the assistant
  have hassistant : textIf (message.toContext id metadata) "assistantId" "assistant_id"
      = .ok none := textIf_of_untested rfl
  have hrun : textIf (message.toContext id metadata) "run_id" "run_id"
      = .ok (if isBlankString message.runId then none else some (.plain message.runId)) :=
    textIf_of_textMember rfl
  have hattachments : stringifyIf (message.toContext id metadata) "attachments"
      = .ok (itemsText message.attachments) := stringifyIf_of_itemsMember rfl
  have hmetadata : stringifyIf (message.toContext id metadata) "metadata"
      = .ok (metadata.bind structText) := by
    cases metadata with
    | none => exact stringifyIf_of_missing rfl
    | some j => exact stringifyIf_of_struct rfl
  rw [messageRow, hid, hthread, hstatus, hdetails, hcompleted, hincompleted, hrole, hcontent,
    hassistant, hrun, hattachments, hmetadata]
  rfl

theorem insertOneValues_eq (h : Accepted id message) :
    insertOneValues (message.toContext id metadata) = .ok (message.row id metadata) :=
  messageRow_eq h (stringifyIf_of_itemsMember rfl)

theorem insertManyValues_eq (h : Accepted id message) :
    insertManyValues (message.toContext id metadata) = .ok (message.row id metadata) := by
  refine messageRow_eq h ?_
  have hempty : ¬ message.content.isEmpty = true := fun hnil => h.content (List.isEmpty_iff.mp hnil)
  have hmembers : message.toContext id metadata "content"
      = some (.json (.array (message.content.map fun item =>
        convertMessageToJsonObject {} item))) := if_neg hempty
  rw [stringify, hmembers, itemsText, if_neg hempty]
  rfl

end Accepted

/-! ### Which messages come back -/

/-- The message is stored and read without a loss. -/
structure Kept (nullRoot : Bool) (message : Message) : Prop where
  status : messageStatus.Declares message.status
  incompleteDetails : ∀ details ∈ message.incompleteDetails,
    Readable schema (.message "IncompleteDetails") (.message details.fields)
  content : ∀ item ∈ message.content,
    Readable schema (.message "MessageContent") (.message item.fields)
  assistantId : message.assistantId = ""
  runId : message.runId = "" ∨ isBlankString message.runId = false
  attachments : ∀ item ∈ message.attachments,
    ((∃ vs ∈ item.fields, vs ≠ []) →
      Readable schema (.message "MessageAttachment") (.message item.fields)) ∧
    ((∀ vs ∈ item.fields, vs = []) → nullRoot = true)
  metadata : ∀ fields ∈ message.metadata, fields ≠ [] ∧ ∀ p ∈ fields, StructConversion.Readable p.2

section Reading

variable {nullRoot : Bool} {t : String}

/-- The conversion reads column after column. -/
theorem convertQueryResult_eq_ok_iff {row : MessageRow} {message : ReadMessage} :
    convertQueryResult nullRoot row = .ok message ↔
      readString row.threadId = .ok message.threadId ∧
      readEnum messageStatus row.status = .ok message.status ∧
      readMessage nullRoot "IncompleteDetails" row.incompleteDetails
        = .ok message.incompleteDetails ∧
      readEnum messageRole row.role = .ok message.role ∧
      readMessages nullRoot "MessageContent" row.content = .ok message.content ∧
      readString row.assistantId = .ok message.assistantId ∧
      readString row.runId = .ok message.runId ∧
      readMessages nullRoot "MessageAttachment" row.attachments = .ok message.attachments ∧
      readStruct row.metadata = .ok message.metadata ∧
      row.completedAt.getD 0 = message.completedAt ∧
      row.incompletedAt.getD 0 = message.incompletedAt := by
  simp only [convertQueryResult, checks_eq_ok]
  constructor
  · rintro ⟨threadId, hthread, status, hstatus, details, hdetails, role, hrole, content, hcontent,
      assistantId, hassistant, runId, hrun, attachments, hattachments, metadata, hmetadata, h⟩
    obtain rfl := Except.ok.inj h
    exact ⟨hthread, hstatus, hdetails, hrole, hcontent, hassistant, hrun, hattachments, hmetadata,
      rfl, rfl⟩
  · rintro ⟨hthread, hstatus, hdetails, hrole, hcontent, hassistant, hrun, hattachments, hmetadata,
      hcompleted, hincompleted⟩
    refine ⟨_, hthread, _, hstatus, _, hdetails, _, hrole, _, hcontent, _, hassistant, _, hrun, _,
      hattachments, _, hmetadata, congrArg Except.ok ?_⟩
    rw [hcompleted, hincompleted]

theorem readEnum_valueName_iff {e : EnumType} {n : Int} :
    readEnum e (some (.plain (e.valueName n))) = .ok n ↔ e.Declares n := by
  rw [← numberOf_valueName_iff, readEnum]
  cases numberOf e (e.valueName n) with
  | none => exact iff_of_false nofun nofun
  | some m => exact ⟨fun h => congrArg some (Except.ok.inj h),
      fun h => congrArg Except.ok (Option.some.inj h)⟩

/-- A text that is stored where it is not blank. -/
theorem readString_unless_blank_iff {s : String} :
    readString (if isBlankString s then none else some (.plain s)) = .ok s ↔
      s = "" ∨ isBlankString s = false := by
  cases hs : isBlankString s with
  | false => simp [readString]
  | true =>
      simp only [if_true, readString, Except.ok.injEq, Bool.true_eq_false, or_false]
      exact eq_comm

theorem getD_unless_zero (n : Int) : (if n = 0 then none else some n).getD 0 = n := by
  split
  · exact (‹n = 0›).symm
  · rfl

theorem isComposite_convert_iff (message : ProtoJson.Message schema t) :
    isComposite (convertMessageToJsonObject {} message) = true
      ↔ ∃ vs ∈ message.fields, vs ≠ [] := by
  have hfit := forall₂_fits_of_hasKind message.hasKind
  by_cases hset : ∃ vs ∈ message.fields, vs ≠ []
  · rw [convertMessageToJsonObject, ofMembers_eq_object hfit hset]
    exact iff_of_true rfl hset
  · have hunset : ∀ vs ∈ message.fields, vs = [] := by simpa using hset
    rw [convertMessageToJsonObject, ofMembers_eq_null hfit hunset]
    exact iff_of_false nofun hset

/-- A sub-message comes back if and only if it is readable: one in which nothing is set is
stored as NULL. -/
theorem readMessage_iff (message? : Option (ProtoJson.Message schema t)) :
    readMessage nullRoot t (message?.bind messageText) = .ok (message?.map (·.fields)) ↔
      ∀ message ∈ message?, Readable schema (.message t) (.message message.fields) := by
  cases message? with
  | none => exact iff_of_true rfl nofun
  | some message =>
      simp only [Option.bind_some, Option.map_some, Option.mem_some_iff, forall_eq']
      by_cases hset : ∃ vs ∈ message.fields, vs ≠ []
      · rw [messageText, if_pos ((isComposite_convert_iff message).mpr hset),
          ← convertsBack_iff_of_set nullRoot message hset, ConvertsBack, readMessage]
        cases convertJSONObjectToMessage nullRoot schema t (convertMessageToJsonObject {} message)
          <;> simp
      · have hunset : ∀ vs ∈ message.fields, vs = [] := by simpa using hset
        rw [messageText, if_neg fun h => hset ((isComposite_convert_iff message).mp h)]
        exact iff_of_false nofun (not_readable_of_unset hunset)

theorem readMessages_iff (items : List (ProtoJson.Message schema t)) :
    readMessages nullRoot t (itemsText items) = .ok (items.map (·.fields)) ↔
      ∀ item ∈ items, ConvertsBack nullRoot item := by
  cases items with
  | nil => exact iff_of_true rfl nofun
  | cons item items =>
      have hmap := mapM_map_eq_some_iff (l := item :: items)
        (f := fun item => convertMessageToJsonObject {} item)
        (g := convertJSONObjectToMessage nullRoot schema t) (h := (·.fields))
      refine Iff.trans ?_ hmap
      rw [itemsText, if_neg (by simp), readMessages]
      cases ((item :: items).map fun item => convertMessageToJsonObject {} item).mapM
        (convertJSONObjectToMessage nullRoot schema t) <;> simp

/-- An item comes back if it is readable, or null stands for it. -/
theorem convertsBack_iff_item (item : ProtoJson.Message schema t) :
    ConvertsBack nullRoot item ↔
      ((∃ vs ∈ item.fields, vs ≠ []) → Readable schema (.message t) (.message item.fields)) ∧
      ((∀ vs ∈ item.fields, vs = []) → nullRoot = true) := by
  by_cases hset : ∃ vs ∈ item.fields, vs ≠ []
  · have hnot : ¬ ∀ vs ∈ item.fields, vs = [] := by simpa using hset
    rw [convertsBack_iff_of_set nullRoot item hset]
    exact ⟨fun h => ⟨fun _ => h, fun hunset => absurd hunset hnot⟩, fun h => h.1 hset⟩
  · have hunset : ∀ vs ∈ item.fields, vs = [] := by simpa using hset
    rw [convertsBack_iff_of_unset nullRoot item hunset]
    exact ⟨fun h => ⟨fun hset' => absurd hset' hset, fun _ => h⟩, fun h => h.2 hunset⟩

/-- The metadata comes back if it has entries and all of them do. -/
theorem readStruct_iff {fields : JsonStructs.Struct} {members : List (String × JsonStructs.Json)}
    (h : convertStruct fields = .ok members) :
    readStruct (structText (.ofMembers members)) = .ok (some fields) ↔
      fields ≠ [] ∧ ∀ p ∈ fields, StructConversion.Readable p.2 := by
  have hfields := ofMembers_convertStruct_iff h fun p _ => ofJson_convertStructValue_iff p.2
  rw [← hfields]
  cases members with
  | nil => exact iff_of_false nofun fun hboth => hboth.1 hboth.2.symm
  | cons member members =>
      have hne : JsonStructs.ofMembers (member :: members) = fields → fields ≠ [] := by
        rintro heq rfl
        cases heq
      have hread : readStruct (structText (.ofMembers (member :: members)))
          = .ok (some (JsonStructs.ofMembers (member :: members))) := rfl
      rw [hread, Except.ok.injEq, Option.some.injEq]
      exact ⟨fun heq => ⟨hne heq, heq⟩, And.right⟩

end Reading

/-- What the metadata of a message is written as. -/
def Written (message : Message) : Option JsonStructs.Json → Prop
  | none => message.metadata = none
  | some j => ∃ fields members, message.metadata = some fields ∧
      convertStruct fields = .ok members ∧ j = .ofMembers members

theorem written_of_convertMessage {id : String} {message : Message} {context : SqlContext}
    (h : convertMessage id message = .ok context) :
    ∃ metadata, Written message metadata ∧ context = message.toContext id metadata := by
  rw [convertMessage] at h
  rcases hm : message.metadata with - | fields
  · rw [hm] at h
    exact ⟨none, hm, (Except.ok.inj h).symm⟩
  · rw [hm] at h
    obtain ⟨members, hmembers, h⟩ := checks_eq_ok.mp h
    exact ⟨some (.ofMembers members), ⟨fields, members, hm, hmembers, rfl⟩,
      (Except.ok.inj h).symm⟩

/-- The row of an accepted message is read back if and only if the message is kept. -/
theorem convertQueryResult_row_iff {nullRoot : Bool} {id : String} {message : Message}
    {metadata : Option JsonStructs.Json} (h : Accepted id message)
    (hwritten : Written message metadata) :
    convertQueryResult nullRoot (message.row id metadata) = .ok message.read
      ↔ Kept nullRoot message := by
  have hcontent : (∀ item ∈ message.content, ConvertsBack nullRoot item) ↔
      ∀ item ∈ message.content,
        Readable schema (.message "MessageContent") (.message item.fields) :=
    forall₂_congr fun item hitem => convertsBack_iff_of_set nullRoot item (h.items item hitem)
  have hattachments : (∀ item ∈ message.attachments, ConvertsBack nullRoot item) ↔ _ :=
    forall₂_congr fun item _ => convertsBack_iff_item item
  have hmetadata : readStruct (metadata.bind structText) = .ok message.metadata ↔
      ∀ fields ∈ message.metadata, fields ≠ [] ∧ ∀ p ∈ fields, StructConversion.Readable p.2 := by
    cases metadata with
    | none =>
        have hnone : message.metadata = none := hwritten
        rw [hnone]
        exact iff_of_true rfl nofun
    | some j =>
        obtain ⟨fields, members, hsome, hmembers, rfl⟩ := hwritten
        rw [hsome]
        simp only [Option.bind_some, Option.mem_some_iff, forall_eq']
        exact readStruct_iff hmembers
  have hassistant : readString none = .ok message.assistantId ↔ message.assistantId = "" := by
    rw [readString, Except.ok.injEq]
    exact eq_comm
  rw [convertQueryResult_eq_ok_iff]
  constructor
  · rintro ⟨-, hstatus, hdetails, -, hitems, hnone, hrun, hfiles, hstruct, -, -⟩
    exact
      { status := readEnum_valueName_iff.mp hstatus
        incompleteDetails := (readMessage_iff message.incompleteDetails).mp hdetails
        content := hcontent.mp ((readMessages_iff message.content).mp hitems)
        assistantId := hassistant.mp hnone
        runId := readString_unless_blank_iff.mp hrun
        attachments := hattachments.mp ((readMessages_iff message.attachments).mp hfiles)
        metadata := hmetadata.mp hstruct }
  · intro hkept
    exact ⟨rfl, readEnum_valueName_iff.mpr hkept.status,
      (readMessage_iff message.incompleteDetails).mpr hkept.incompleteDetails,
      readEnum_valueName_iff.mpr h.role.1,
      (readMessages_iff message.content).mpr (hcontent.mpr hkept.content),
      hassistant.mpr hkept.assistantId, readString_unless_blank_iff.mpr hkept.runId,
      (readMessages_iff message.attachments).mpr (hattachments.mpr hkept.attachments),
      hmetadata.mpr hkept.metadata, getD_unless_zero message.completedAt,
      getD_unless_zero message.incompletedAt⟩

/-! ### The table keeps the rows -/

/-- The rows of a statement are found in the table afterwards. -/
theorem rows_insertRows {rows : List MessageRow} {table table' : MessageTable}
    (h : insertRows rows table = some table') : table'.rows = table.rows ++ rows := by
  induction rows generalizing table with
  | nil => rw [insertRows] at h; rw [← Option.some.inj h, List.append_nil]
  | cons row rows ih =>
      rw [insertRows] at h
      obtain ⟨t, ht, h⟩ := Option.bind_eq_some_iff.mp h
      rw [ih h, Table.rows_insert ht, List.append_assoc, List.singleton_append]

theorem insertStatement_ok {rows : List MessageRow} {table table' : MessageTable}
    (h : insertStatement rows table = (.ok (), table')) : ∀ row ∈ rows, row ∈ table'.rows := by
  intro row hrow
  rw [insertStatement] at h
  rcases hinsert : insertRows rows table with - | t
  · rw [hinsert] at h
    cases h
  · rw [hinsert] at h
    obtain ⟨-, rfl⟩ := Prod.mk.inj h
    rw [rows_insertRows hinsert]
    exact List.mem_append_right _ hrow

/-- A row that is in the table is the one that its ids find. -/
theorem retrieveMessage_of_mem {nullRoot : Bool} {message : Message} {id : String}
    {metadata : Option JsonStructs.Json} {table : MessageTable}
    (h : message.row id metadata ∈ table.rows) :
    retrieveMessage nullRoot message.threadId id table
      = ((convertQueryResult nullRoot (message.row id metadata)).map some, table) := by
  have hfind : table.find? (isMessage message.threadId id) = some (message.row id metadata) := by
    refine Table.find?_eq_some_of_mem h ?_ fun row hrow => ?_
    · simp [isMessage, MessageRow.idText, Message.row]
    · exact of_decide_eq_true (Bool.and_eq_true_iff.mp hrow).1
  rw [retrieveMessage, hfind]

theorem retrieveMessage_row_iff {nullRoot : Bool} {message : Message} {id : String}
    {metadata : Option JsonStructs.Json} {table : MessageTable}
    (h : message.row id metadata ∈ table.rows) (haccepted : Accepted id message)
    (hwritten : Written message metadata) :
    (retrieveMessage nullRoot message.threadId id table).1 = .ok (some message.read)
      ↔ Kept nullRoot message := by
  rw [retrieveMessage_of_mem h, ← convertQueryResult_row_iff haccepted hwritten]
  refine map_eq_ok.trans ⟨?_, fun h => ⟨_, h, rfl⟩⟩
  rintro ⟨read, hread, hsame⟩
  rw [hread, Option.some.inj hsame]

theorem storeMessage_ok {id : String} {message : Message} {table table' : MessageTable}
    (h : storeMessage id message table = (.ok (), table')) :
    ∃ metadata, Written message metadata ∧ Accepted id message ∧
      message.row id metadata ∈ table'.rows := by
  obtain ⟨context, hcontext, h⟩ := Action.ok_of_bind_liftM h
  obtain ⟨metadata, hwritten, rfl⟩ := written_of_convertMessage hcontext
  obtain ⟨⟨⟩, hchecks, h⟩ := Action.ok_of_bind_liftM h
  have haccepted := accepted_of_checkOneMessage hchecks
  obtain ⟨row, hrow, h⟩ := Action.ok_of_bind_liftM h
  obtain rfl := Except.ok.inj ((insertOneValues_eq haccepted).symm.trans hrow)
  exact ⟨metadata, hwritten, haccepted, insertStatement_ok h _ List.mem_cons_self⟩

theorem storeMessages_ok {messages : List (String × Message)} {table table' : MessageTable}
    (h : storeMessages messages table = (.ok (), table')) :
    ∀ p ∈ messages, ∃ metadata, Written p.2 metadata ∧ Accepted p.1 p.2 ∧
      p.2.row p.1 metadata ∈ table'.rows := by
  intro p hp
  obtain ⟨contexts, hcontexts, h⟩ := Action.ok_of_bind_liftM h
  obtain ⟨context, hmem, hcontext⟩ := exists_of_mapM hcontexts p hp
  obtain ⟨metadata, hwritten, rfl⟩ := written_of_convertMessage hcontext
  have hempty : ¬ contexts.isEmpty = true := fun hnil => by
    rw [List.isEmpty_iff.mp hnil] at hmem
    cases hmem
  rw [insertManyMessages, if_neg hempty] at h
  obtain ⟨⟨⟩, hchecks, h⟩ := Action.ok_of_bind_liftM h
  have haccepted := accepted_of_checkManyMessages (forM_eq_ok.mp hchecks _ hmem)
  obtain ⟨rows, hrows, h⟩ := Action.ok_of_bind_liftM h
  obtain ⟨row, hrow, heq⟩ := exists_of_mapM hrows _ hmem
  obtain rfl := Except.ok.inj ((insertManyValues_eq haccepted).symm.trans heq)
  exact ⟨metadata, hwritten, haccepted, insertStatement_ok h _ hrow⟩

/-- **Messages that come back.** -/
theorem messages_read_back_iff (nullRoot : Bool) :
    (∀ id message table table', storeMessage id message table = (.ok (), table') →
      ((createRawMessage nullRoot id message table).1 = .ok (some message.read)
        ↔ Kept nullRoot message)) ∧
    (∀ messages table table', storeMessages messages table = (.ok (), table') →
      ∀ p ∈ messages,
        ((retrieveMessage nullRoot p.2.threadId p.1 table').1 = .ok (some p.2.read)
          ↔ Kept nullRoot p.2)) := by
  constructor
  · intro id message table table' h
    obtain ⟨metadata, hwritten, haccepted, hrow⟩ := storeMessage_ok h
    rw [createRawMessage, Action.bind_of_ok h]
    exact retrieveMessage_row_iff hrow haccepted hwritten
  · intro messages table table' h p hp
    obtain ⟨metadata, hwritten, haccepted, hrow⟩ := storeMessages_ok h p hp
    exact retrieveMessage_row_iff hrow haccepted hwritten

/-- A content item with a plain text. -/
def textItem : ProtoJson.Message schema "MessageContent" where
  fields := [[.enum 1], [], [.message [[.string "hi"], []]]]
  hasKind := by decide

/-- A message of an assistant. -/
def answer (assistantId : String) : Message :=
  { threadId := "thread_1", status := 1, completedAt := 5, role := 2, content := [textItem]
    assistantId := assistantId, runId := "run_1" }

theorem readable_textItem :
    Readable schema (.message "MessageContent") (.message textItem.fields) :=
  (convertsBack_iff_of_set true textItem ⟨_, List.mem_cons_self, List.cons_ne_nil _ _⟩).mp rfl

theorem kept_answer (nullRoot : Bool) : Kept nullRoot (answer "") where
  status := List.mem_map.mpr ⟨("completed", 1), by decide, rfl⟩
  incompleteDetails := nofun
  content := List.forall_mem_singleton.mpr readable_textItem
  assistantId := rfl
  runId := .inr (by decide)
  attachments := nofun
  metadata := nofun

/-- A message that names no assistant comes back, stored alone or with others. -/
theorem messages_read_back_answer :
    (createRawMessage true "msg_1" (answer "") .empty).1 = .ok (some (answer "").read) ∧
    ∃ table', storeMessages [("msg_1", answer "")] .empty = (.ok (), table') ∧
      (retrieveMessage true "thread_1" "msg_1" table').1 = .ok (some (answer "").read) := by
  refine ⟨((messages_read_back_iff true).1 "msg_1" (answer "") .empty _ rfl).mpr (kept_answer true),
    _, rfl, ?_⟩
  exact ((messages_read_back_iff true).2 [("msg_1", answer "")] .empty _ rfl _
    (List.mem_singleton.mpr rfl)).mpr (kept_answer true)

/-- One that names its assistant comes back without it. -/
theorem answer_loses_assistant : ¬ ∀ id message table table',
    storeMessage id message table = (.ok (), table') →
      (createRawMessage true id message table).1 = .ok (some message.read) := by
  intro h
  have hsame := h "msg_1" (answer "asst_1") .empty _ rfl
  have hlost : (createRawMessage true "msg_1" (answer "asst_1") .empty).1
      = .ok (some (answer "").read) := rfl
  rw [hlost] at hsame
  have hassistant := congrArg (Option.map (·.assistantId)) (Except.ok.inj hsame)
  exact absurd (Option.some.inj hassistant) (by decide)

end Instinct.MessageRows
