import FlowAlarm.Text.XmlTemplate

/-!
# Response bodies

The bodies that answer the platform's queries and controls, as gbxml.go and
control.go format them, and the documents they are meant to be. No value is
escaped: `responses_faithful_iff` says which values come back.
-/

namespace FlowAlarm.GbXml

open FlowAlarm.Text FlowAlarm.Xml

def manufacturer : Bytes := ascii "custom"
def model : Bytes := ascii "RV1126B"
def firmware : Bytes := ascii "0.1.0"
def owner : Bytes := ascii "owner"
def civilCode : Bytes := ascii "350200"

structure Channel where
  id : Bytes
  name : Bytes
  ptzType : Int
  status : Bytes

/-- The status a catalog shows. -/
def Channel.shown (ch : Channel) : Bytes := if ch.status = [] then ascii "ON" else ch.status

/-! ## The formats -/

def lines (ls : List String) : Bytes := ls.flatMap fun l => ascii l ++ [0x0A]

def itemFormat : Bytes :=
  lines [
    "<Item>", "<DeviceID>%s</DeviceID>", "<Name>%s</Name>", "<Manufacturer>%s</Manufacturer>",
    "<Model>%s</Model>", "<Owner>%s</Owner>", "<CivilCode>%s</CivilCode>", "<Block></Block>",
    "<Address>rv1126b</Address>", "<Parental>0</Parental>", "<ParentID>%s</ParentID>",
    "<SafetyWay>0</SafetyWay>", "<RegisterWay>1</RegisterWay>", "<CertNum></CertNum>",
    "<Certifiable>0</Certifiable>", "<ErrCode>0</ErrCode>", "<EndTime></EndTime>",
    "<Secrecy>0</Secrecy>", "<IPAddress></IPAddress>", "<Port>0</Port>", "<Password></Password>",
    "<Status>%s</Status>", "<Longitude>0</Longitude>", "<Latitude>0</Latitude>",
    "<Info><PTZType>%d</PTZType></Info>", "</Item>"]

def itemArgs (deviceID : Bytes) (ch : Channel) : List Bytes :=
  [ch.id, ch.name, manufacturer, model, owner, civilCode, deviceID, ch.shown, decInt ch.ptzType]

def catalogFormat : Bytes :=
  lines [
    "<?xml version=\"1.0\" encoding=\"UTF-8\"?>", "<Response>", "<CmdType>Catalog</CmdType>",
    "<SN>%s</SN>", "<DeviceID>%s</DeviceID>", "<SumNum>%d</SumNum>", "<DeviceList Num=\"%d\">",
    "%s</DeviceList>"] ++ ascii "</Response>"

def CatalogResponse (sn deviceID : Bytes) (channels : List Channel) : Bytes :=
  let items := channels.flatMap fun ch => sprintf itemFormat (itemArgs deviceID ch)
  sprintf catalogFormat [sn, deviceID, dec channels.length, dec channels.length, items]

def deviceInfoFormat : Bytes :=
  lines [
    "<?xml version=\"1.0\" encoding=\"UTF-8\"?>", "<Response>", "<CmdType>DeviceInfo</CmdType>",
    "<SN>%s</SN>", "<DeviceID>%s</DeviceID>", "<DeviceName>rv1126b-ipc</DeviceName>",
    "<Manufacturer>%s</Manufacturer>", "<Model>%s</Model>", "<Firmware>%s</Firmware>",
    "<Result>OK</Result>"] ++ ascii "</Response>"

def DeviceInfoResponse (sn deviceID : Bytes) : Bytes :=
  sprintf deviceInfoFormat [sn, deviceID, manufacturer, model, firmware]

def controlFormat : Bytes :=
  lines [
    "<?xml version=\"1.0\" encoding=\"UTF-8\"?>", "<Response>",
    "<CmdType>DeviceControl</CmdType>", "<SN>%s</SN>", "<DeviceID>%s</DeviceID>",
    "<Result>%s</Result>"] ++ ascii "</Response>"

def ControlResponse (sn deviceID result : Bytes) : Bytes :=
  sprintf controlFormat [sn, deviceID, result]

/-! ## The documents they stand for -/

def line : Template := [some (.char 0x0A)]

def elem (name : String) (body : Template) : Template :=
  some (.start (ascii name) []) :: (body ++ [some (.close (ascii name))])

/-- An element on a line of its own. -/
def field (name : String) (body : Template) : Template := elem name body ++ line

def const (s : String) : Template := (ascii s).map fun b => some (.char b)

def hole : Template := [none]

def itemTemplate : Template :=
  field "Item" (line ++ field "DeviceID" hole ++ field "Name" hole ++ field "Manufacturer" hole ++
    field "Model" hole ++ field "Owner" hole ++ field "CivilCode" hole ++ field "Block" [] ++
    field "Address" (const "rv1126b") ++ field "Parental" (const "0") ++ field "ParentID" hole ++
    field "SafetyWay" (const "0") ++ field "RegisterWay" (const "1") ++ field "CertNum" [] ++
    field "Certifiable" (const "0") ++ field "ErrCode" (const "0") ++ field "EndTime" [] ++
    field "Secrecy" (const "0") ++ field "IPAddress" [] ++ field "Port" (const "0") ++
    field "Password" [] ++ field "Status" hole ++ field "Longitude" (const "0") ++
    field "Latitude" (const "0") ++ field "Info" (elem "PTZType" hole))

/-- A catalog up to its list of channels. -/
def catalogHead : Template :=
  line ++ some (.start (ascii "Response") []) :: (line ++ field "CmdType" (const "Catalog") ++
    field "SN" hole ++ field "DeviceID" hole ++ field "SumNum" hole)

def catalogTail : Template :=
  some (.close (ascii "DeviceList")) :: (line ++ [some (.close (ascii "Response"))])

def deviceInfoTemplate : Template :=
  line ++ elem "Response" (line ++ field "CmdType" (const "DeviceInfo") ++ field "SN" hole ++
    field "DeviceID" hole ++ field "DeviceName" (const "rv1126b-ipc") ++
    field "Manufacturer" hole ++ field "Model" hole ++ field "Firmware" hole ++
    field "Result" (const "OK"))

def controlTemplate : Template :=
  line ++ elem "Response" (line ++ field "CmdType" (const "DeviceControl") ++ field "SN" hole ++
    field "DeviceID" hole ++ field "Result" hole)

def deviceList (n : Nat) : Token := .start (ascii "DeviceList") [(ascii "Num", dec n)]

def items (deviceID : Bytes) (channels : List Channel) : List Token :=
  channels.flatMap fun ch => plug itemTemplate (itemArgs deviceID ch)

def catalog (sn deviceID : Bytes) (channels : List Channel) : List Token :=
  plug catalogHead [sn, deviceID, dec channels.length] ++
    deviceList channels.length :: .char 0x0A :: (items deviceID channels ++ plug catalogTail [])

def deviceInfo (sn deviceID : Bytes) : List Token :=
  plug deviceInfoTemplate [sn, deviceID, manufacturer, model, firmware]

def control (sn deviceID result : Bytes) : List Token :=
  plug controlTemplate [sn, deviceID, result]

/-- A value that a document can carry, escaped or not. Checked byte by byte, so that invalid UTF-8,
U+FFFE and U+FFFF, which `encoding/xml` refuses as well, are let through here. -/
def Representable (v : Bytes) : Prop := v.all isXmlByte = true

instance (v : Bytes) : Decidable (Representable v) := inferInstanceAs (Decidable (_ = _))

/-- What is read in a catalog is what went into it, item by item. -/
def CatalogFaithful (sn deviceID : Bytes) (channels : List Channel) : Prop :=
  ∃ ts, parse (CatalogResponse sn deviceID channels) = some ts ∧
    ts = catalog sn deviceID channels ∧
    ts.count (.start (ascii "Item") []) = channels.length

def DeviceInfoFaithful (sn deviceID : Bytes) : Prop :=
  parse (DeviceInfoResponse sn deviceID) = some (deviceInfo sn deviceID)

def ControlFaithful (sn deviceID result : Bytes) : Prop :=
  parse (ControlResponse sn deviceID result) = some (control sn deviceID result)

/-! ## The bodies are the documents, written without escapes -/

def declaration : Bytes := ascii "<?xml version=\"1.0\" encoding=\"UTF-8\"?>"

theorem declaration_plain : ∀ b ∈ declaration, b ≠ 0x25 := by
  have h : declaration.all (· != 0x25) = true := by decide +kernel
  exact fun b hb => by simpa using List.all_eq_true.mp h b hb

theorem prolog_declaration (s : Bytes) : prolog (declaration ++ s) = some s := rfl

/-- A format string that begins with the declaration. -/
theorem sprintf_document {fmt : Bytes} {tmpl : Template} (h : fits fmt tmpl = true)
    {args : List Bytes} (hn : holes tmpl = args.length) :
    sprintf (declaration ++ fmt) args = declaration ++ print (plug tmpl args) := by
  have hfill := sprintf_plug h hn [] []
  rw [List.append_nil, List.append_nil] at hfill
  rw [sprintf_text declaration_plain, hfill, sprintf, List.append_nil]

theorem deviceInfo_format : deviceInfoFormat = declaration ++ deviceInfoFormat.drop declaration.length ∧
    fits (deviceInfoFormat.drop declaration.length) deviceInfoTemplate = true := by decide +kernel

theorem control_format : controlFormat = declaration ++ controlFormat.drop declaration.length ∧
    fits (controlFormat.drop declaration.length) controlTemplate = true := by decide +kernel

theorem DeviceInfoResponse_eq (sn deviceID : Bytes) :
    DeviceInfoResponse sn deviceID = declaration ++ print (deviceInfo sn deviceID) := by
  obtain ⟨hfmt, hfits⟩ := deviceInfo_format
  rw [DeviceInfoResponse, hfmt]
  exact sprintf_document hfits rfl

theorem ControlResponse_eq (sn deviceID result : Bytes) :
    ControlResponse sn deviceID result = declaration ++ print (control sn deviceID result) := by
  obtain ⟨hfmt, hfits⟩ := control_format
  rw [ControlResponse, hfmt]
  exact sprintf_document hfits rfl

example : ControlResponse (ascii "7") (ascii "3402") (ascii "OK") =
    declaration ++ print (control (ascii "7") (ascii "3402") (ascii "OK")) := by decide +kernel

theorem item_format : fits itemFormat itemTemplate = true := by decide +kernel

theorem items_eq (deviceID : Bytes) (channels : List Channel) :
    (channels.flatMap fun ch => sprintf itemFormat (itemArgs deviceID ch)) =
      print (items deviceID channels) := by
  induction channels with
  | nil => rfl
  | cons ch channels ih =>
    have hitem := @sprintf_plug _ _ item_format (itemArgs deviceID ch) rfl [] []
    rw [List.append_nil, List.append_nil, sprintf, List.append_nil] at hitem
    have hcons : items deviceID (ch :: channels) =
        plug itemTemplate (itemArgs deviceID ch) ++ items deviceID channels := List.flatMap_cons
    rw [List.flatMap_cons, ih, hitem, hcons, print_append]

def listFormat : Bytes :=
  lines ["<DeviceList Num=\"%d\">", "%s</DeviceList>"] ++ ascii "</Response>"

theorem catalog_format :
    catalogFormat =
        declaration ++ ((catalogFormat.drop declaration.length).take 95 ++ listFormat) ∧
      fits ((catalogFormat.drop declaration.length).take 95) catalogHead = true := by
  decide +kernel

theorem sprintf_list (n : Nat) (ts : List Token) :
    sprintf listFormat [dec n, print ts] =
      print (deviceList n :: .char 0x0A :: (ts ++ plug catalogTail [])) := by
  have htail : print (plug catalogTail []) = ascii "</DeviceList>\n</Response>" := by decide +kernel
  have htag : printToken (deviceList n) = ascii "<DeviceList Num=\"" ++ (dec n ++ ascii "\">") := by
    rw [deviceList, printToken, printAttrs, printAttrs, List.cons_append, List.append_assoc,
      List.cons_append, List.cons_append, List.append_assoc]
    rfl
  have hfill : sprintf listFormat [dec n, print ts] =
      ascii "<DeviceList Num=\"" ++ (dec n ++ (ascii "\">\n" ++
        (print ts ++ ascii "</DeviceList>\n</Response>"))) := rfl
  rw [print_cons, print_cons, print_append, htail, htag, hfill, List.append_assoc,
    List.append_assoc]
  rfl

theorem CatalogResponse_eq (sn deviceID : Bytes) (channels : List Channel) :
    CatalogResponse sn deviceID channels =
      declaration ++ print (catalog sn deviceID channels) := by
  obtain ⟨hfmt, hfits⟩ := catalog_format
  have hhead := @sprintf_plug _ _ hfits [sn, deviceID, dec channels.length] rfl listFormat
    [dec channels.length, print (items deviceID channels)]
  rw [sprintf_list] at hhead
  rw [CatalogResponse, items_eq, hfmt, sprintf_text declaration_plain, catalog, print_append]
  exact congrArg _ hhead

/-! ## The documents are well formed -/

theorem constants_plain : ∀ v ∈ [manufacturer, model, firmware, owner, civilCode],
    Representable v ∧ PlainText v := by decide +kernel

theorem numberByte_cases {b : UInt8} (h : isDigit b = true ∨ b = 0x2D) :
    isSpecial b = false ∧ isAttrByte b = true ∧ isXmlByte b = true ∧ b ≠ 0x5D := by
  have hall : ∀ n < 256, isDigit (UInt8.ofNat n) = true ∨ UInt8.ofNat n = 0x2D →
      isSpecial (UInt8.ofNat n) = false ∧ isAttrByte (UInt8.ofNat n) = true ∧
        isXmlByte (UInt8.ofNat n) = true ∧ UInt8.ofNat n ≠ 0x5D := by
    decide +kernel
  have hb : UInt8.ofNat b.toNat = b := UInt8.ofNat_toNat
  simpa only [hb] using hall b.toNat b.toNat_lt (by rw [hb]; exact h)

/-- A number stands for itself. -/
theorem number_plain {v : Bytes} (h : ∀ b ∈ v, isDigit b = true ∨ b = 0x2D) :
    Representable v ∧ PlainText v := by
  refine ⟨List.all_eq_true.mpr fun b hb => (numberByte_cases (h b hb)).2.2.1,
    fun b hb => (numberByte_cases (h b hb)).1, ?_⟩
  induction v with
  | nil => rfl
  | cons b v ih =>
    obtain ⟨hb, hv⟩ := List.forall_mem_cons.mp h
    have hne := (numberByte_cases hb).2.2.2
    rw [noCdataEnd, ih hv]
    simp [cdataEnd, List.isPrefixOf, Ne.symm hne]

theorem dec_plain (n : Nat) : Representable (dec n) ∧ PlainText (dec n) :=
  number_plain fun _ hb => .inl (isDigit_of_mem_dec hb)

theorem decInt_plain (z : Int) : Representable (decInt z) ∧ PlainText (decInt z) := by
  refine number_plain fun b hb => ?_
  unfold decInt at hb
  split at hb
  · exact (List.mem_cons.mp hb).elim .inr fun hb => .inl (isDigit_of_mem_dec hb)
  · exact .inl (isDigit_of_mem_dec hb)

theorem deviceList_proper (n : Nat) : (deviceList n).Proper := by
  refine ⟨by decide +kernel, ⟨?_, ?_, by simp⟩⟩
  · simp only [List.mem_singleton, forall_eq]
    decide +kernel
  · simp only [List.mem_singleton, forall_eq]
    exact List.all_eq_true.mpr fun b hb => (numberByte_cases (.inl (isDigit_of_mem_dec hb))).2.1

structure Channel.Representable (ch : Channel) : Prop where
  id : GbXml.Representable ch.id
  name : GbXml.Representable ch.name
  status : GbXml.Representable ch.status

/-- The texts of a channel stand for themselves. -/
structure Channel.Plain (ch : Channel) : Prop where
  id : PlainText ch.id
  name : PlainText ch.name
  shown : PlainText ch.shown

theorem Channel.Representable.shown {ch : Channel} (h : ch.Representable) :
    GbXml.Representable ch.shown := by
  unfold Channel.shown
  split
  · decide +kernel
  · exact h.status

theorem itemArgs_representable {deviceID : Bytes} {ch : Channel} (hd : Representable deviceID)
    (h : ch.Representable) : ∀ a ∈ itemArgs deviceID ch, a.all isXmlByte = true := by
  have hconst := fun v hv => (constants_plain v hv).1
  simp only [List.forall_mem_cons] at hconst
  obtain ⟨hm, hmodel, -, howner, hcode, -⟩ := hconst
  simp only [itemArgs, List.forall_mem_cons]
  exact ⟨h.id, h.name, hm, hmodel, howner, hcode, hd, h.shown, (decInt_plain _).1,
    fun _ h => (nomatch h)⟩

theorem itemArgs_plain_iff (deviceID : Bytes) (ch : Channel) :
    (∀ a ∈ itemArgs deviceID ch, PlainText a) ↔ PlainText deviceID ∧ ch.Plain := by
  have hconst := fun v hv => (constants_plain v hv).2
  simp only [List.forall_mem_cons] at hconst
  obtain ⟨hm, hmodel, -, howner, hcode, -⟩ := hconst
  simp only [itemArgs, List.forall_mem_cons]
  constructor
  · rintro ⟨hid, hname, -, -, -, -, hd, hshown, -⟩
    exact ⟨hd, hid, hname, hshown⟩
  · rintro ⟨hd, h⟩
    exact ⟨h.id, h.name, hm, hmodel, howner, hcode, hd, h.shown, (decInt_plain _).2,
      fun _ h => (nomatch h)⟩

theorem item_checks : sealed itemTemplate = true ∧ (∀ o ∈ itemTemplate, ∀ t ∈ o, t.Proper) ∧
    balance [ascii "DeviceList", ascii "Response"] true itemTemplate =
      some ([ascii "DeviceList", ascii "Response"], true) ∧
    itemTemplate.count (some (.start (ascii "Item") [])) = 1 := by decide +kernel

theorem head_checks : sealed catalogHead = true ∧ (∀ o ∈ catalogHead, ∀ t ∈ o, t.Proper) ∧
    balance [] false catalogHead = some ([ascii "Response"], true) ∧
    catalogHead.count (some (.start (ascii "Item") [])) = 0 := by decide +kernel

theorem tail_checks : sealed catalogTail = true ∧ (∀ o ∈ catalogTail, ∀ t ∈ o, t.Proper) ∧
    balance [ascii "DeviceList", ascii "Response"] true catalogTail = some ([], true) ∧
    catalogTail.count (some (.start (ascii "Item") [])) = 0 := by decide +kernel

theorem deviceInfo_checks :
    sealed deviceInfoTemplate = true ∧ (∀ o ∈ deviceInfoTemplate, ∀ t ∈ o, t.Proper) ∧
    balance [] false deviceInfoTemplate = some ([], true) := by decide +kernel

theorem control_checks :
    sealed controlTemplate = true ∧ (∀ o ∈ controlTemplate, ∀ t ∈ o, t.Proper) ∧
    balance [] false controlTemplate = some ([], true) := by decide +kernel

/-! ## Item by item -/

theorem items_cons (deviceID : Bytes) (ch : Channel) (channels : List Channel) :
    items deviceID (ch :: channels) =
      plug itemTemplate (itemArgs deviceID ch) ++ items deviceID channels := List.flatMap_cons

theorem items_proper {deviceID : Bytes} {channels : List Channel} (hd : Representable deviceID)
    (h : ∀ ch ∈ channels, ch.Representable) : ∀ t ∈ items deviceID channels, t.Proper := by
  intro t ht
  obtain ⟨ch, hch, ht⟩ := List.mem_flatMap.mp ht
  exact proper_plug item_checks.2.1 (itemArgs_representable hd (h ch hch)) t ht

theorem items_nested (deviceID : Bytes) (channels : List Channel) (rest : List Token) :
    nested [ascii "DeviceList", ascii "Response"] true (items deviceID channels ++ rest) =
      nested [ascii "DeviceList", ascii "Response"] true rest := by
  induction channels with
  | nil => rfl
  | cons ch channels ih =>
    rw [items_cons, List.append_assoc, nested_plug item_checks.2.2.1, ih]

theorem items_clean (deviceID : Bytes) (hd : PlainText deviceID) (channels : List Channel)
    (rest : List Token) :
    Clean (items deviceID channels ++ rest) ↔ (∀ ch ∈ channels, ch.Plain) ∧ Clean rest := by
  induction channels with
  | nil => exact (and_iff_right fun _ h => (nomatch h)).symm
  | cons ch channels ih =>
    rw [items_cons, List.append_assoc, clean_plug item_checks.1 (by rfl), itemArgs_plain_iff, ih,
      List.forall_mem_cons]
    tauto

theorem items_count (deviceID : Bytes) (channels : List Channel) :
    (items deviceID channels).count (.start (ascii "Item") []) = channels.length := by
  induction channels with
  | nil => rfl
  | cons ch channels ih =>
    rw [items_cons, List.count_append, count_plug rfl, ih, item_checks.2.2.2, List.length_cons,
      Nat.add_comm]

/-! ## What comes back -/

theorem catalog_proper {sn deviceID : Bytes} {channels : List Channel} (hsn : Representable sn)
    (hd : Representable deviceID) (h : ∀ ch ∈ channels, ch.Representable) :
    ∀ t ∈ catalog sn deviceID channels, t.Proper := by
  have hhead := @proper_plug catalogHead head_checks.2.1 [sn, deviceID, dec channels.length] (by
    simp only [List.forall_mem_cons]
    exact ⟨hsn, hd, (dec_plain _).1, fun _ h => (nomatch h)⟩)
  have htail := @proper_plug catalogTail tail_checks.2.1 [] fun _ h => (nomatch h)
  intro t ht
  rcases List.mem_append.mp ht with ht | ht
  · exact hhead t ht
  · rcases List.mem_cons.mp ht with rfl | ht
    · exact deviceList_proper _
    · rcases List.mem_cons.mp ht with rfl | ht
      · exact (by decide : isXmlByte 0x0A = true)
      · exact (List.mem_append.mp ht).elim (items_proper hd h t) (htail t)

theorem catalog_nested (sn deviceID : Bytes) (channels : List Channel) :
    nested [] false (catalog sn deviceID channels) = true := by
  have htail := nested_plug tail_checks.2.2.1 [] []
  rw [List.append_nil] at htail
  rw [catalog, nested_plug head_checks.2.2.1, deviceList, nested, nested, items_nested, htail]
  rfl

theorem catalog_clean_iff (sn deviceID : Bytes) (channels : List Channel) :
    Clean (catalog sn deviceID channels) ↔
      PlainText sn ∧ PlainText deviceID ∧ ∀ ch ∈ channels, ch.Plain := by
  have htail : Clean (plug catalogTail []) := by
    have h := clean_plug tail_checks.1 (by rfl : holes catalogTail = ([] : List Bytes).length) []
    rw [List.append_nil] at h
    exact h.mpr ⟨fun _ h => (nomatch h), clean_nil⟩
  rw [catalog, clean_plug head_checks.1 (by rfl), clean_tag rfl,
    clean_char (by decide) (by decide)]
  simp only [List.forall_mem_cons]
  constructor
  · rintro ⟨⟨hsn, hd, -⟩, hitems⟩
    exact ⟨hsn, hd, ((items_clean deviceID hd channels _).mp hitems).1⟩
  · rintro ⟨hsn, hd, hch⟩
    exact ⟨⟨hsn, hd, (dec_plain _).2, fun _ h => (nomatch h)⟩,
      (items_clean deviceID hd channels _).mpr ⟨hch, htail⟩⟩

theorem catalog_count (sn deviceID : Bytes) (channels : List Channel) :
    (catalog sn deviceID channels).count (.start (ascii "Item") []) = channels.length := by
  have hlist : deviceList channels.length ≠ .start (ascii "Item") [] := by simp [deviceList]
  rw [catalog, List.count_append, count_plug rfl, head_checks.2.2.2,
    List.count_cons_of_ne hlist, List.count_cons_of_ne (by simp), List.count_append, items_count,
    count_plug rfl, tail_checks.2.2.2, Nat.zero_add, Nat.add_zero]

theorem catalogFaithful_iff {sn deviceID : Bytes} {channels : List Channel}
    (hsn : Representable sn) (hd : Representable deviceID)
    (h : ∀ ch ∈ channels, ch.Representable) :
    CatalogFaithful sn deviceID channels ↔
      PlainText sn ∧ PlainText deviceID ∧ ∀ ch ∈ channels, ch.Plain := by
  have hread := read_document_iff (catalog_proper hsn hd h) (catalog_nested sn deviceID channels)
    (prolog_declaration _)
  rw [← CatalogResponse_eq] at hread
  rw [← catalog_clean_iff, ← hread]
  constructor
  · rintro ⟨ts, hparse, rfl, -⟩
    exact hparse
  · exact fun hparse => ⟨_, hparse, rfl, catalog_count sn deviceID channels⟩

theorem deviceInfoFaithful_iff {sn deviceID : Bytes} (hsn : Representable sn)
    (hd : Representable deviceID) :
    DeviceInfoFaithful sn deviceID ↔ PlainText sn ∧ PlainText deviceID := by
  have hconst := constants_plain
  simp only [List.forall_mem_cons] at hconst
  obtain ⟨hm, hmodel, hfirm, -⟩ := hconst
  have hproper : ∀ t ∈ deviceInfo sn deviceID, t.Proper :=
    proper_plug deviceInfo_checks.2.1 (by
      simp only [List.forall_mem_cons]
      exact ⟨hsn, hd, hm.1, hmodel.1, hfirm.1, fun _ h => (nomatch h)⟩)
  have hnested : nested [] false (deviceInfo sn deviceID) = true := by
    have h := nested_plug deviceInfo_checks.2.2 [sn, deviceID, manufacturer, model, firmware] []
    rwa [List.append_nil] at h
  have hclean : Clean (deviceInfo sn deviceID) ↔ PlainText sn ∧ PlainText deviceID := by
    have h := @clean_plug _ deviceInfo_checks.1 [sn, deviceID, manufacturer, model, firmware]
      (by rfl) []
    rw [List.append_nil] at h
    rw [deviceInfo, h]
    simp only [List.forall_mem_cons]
    constructor
    · rintro ⟨⟨h₁, h₂, -⟩, -⟩
      exact ⟨h₁, h₂⟩
    · rintro ⟨h₁, h₂⟩
      exact ⟨⟨h₁, h₂, hm.2, hmodel.2, hfirm.2, fun _ h => (nomatch h)⟩, clean_nil⟩
  rw [DeviceInfoFaithful, DeviceInfoResponse_eq, ← hclean]
  exact read_document_iff hproper hnested (prolog_declaration _)

theorem controlFaithful_iff {sn deviceID result : Bytes} (hsn : Representable sn)
    (hd : Representable deviceID) (hr : Representable result) :
    ControlFaithful sn deviceID result ↔
      PlainText sn ∧ PlainText deviceID ∧ PlainText result := by
  have hproper : ∀ t ∈ control sn deviceID result, t.Proper :=
    proper_plug control_checks.2.1 (by
      simp only [List.forall_mem_cons]
      exact ⟨hsn, hd, hr, fun _ h => (nomatch h)⟩)
  have hnested : nested [] false (control sn deviceID result) = true := by
    have h := nested_plug control_checks.2.2 [sn, deviceID, result] []
    rwa [List.append_nil] at h
  have hclean : Clean (control sn deviceID result) ↔
      PlainText sn ∧ PlainText deviceID ∧ PlainText result := by
    have h := @clean_plug _ control_checks.1 [sn, deviceID, result] (by rfl) []
    rw [List.append_nil] at h
    rw [control, h]
    simp only [List.forall_mem_cons]
    constructor
    · rintro ⟨⟨h₁, h₂, h₃, -⟩, -⟩
      exact ⟨h₁, h₂, h₃⟩
    · rintro ⟨h₁, h₂, h₃⟩
      exact ⟨⟨h₁, h₂, h₃, fun _ h => (nomatch h)⟩, clean_nil⟩
  rw [ControlFaithful, ControlResponse_eq, ← hclean]
  exact read_document_iff hproper hnested (prolog_declaration _)

/-- **When the platform reads what went into a response**: no value in it has a character that
needs an escape. -/
theorem responses_faithful_iff {sn deviceID result : Bytes} {channels : List Channel}
    (hsn : Representable sn) (hd : Representable deviceID) (hr : Representable result)
    (hch : ∀ ch ∈ channels, ch.Representable) :
    (CatalogFaithful sn deviceID channels ↔
      PlainText sn ∧ PlainText deviceID ∧ ∀ ch ∈ channels, ch.Plain) ∧
    (DeviceInfoFaithful sn deviceID ↔ PlainText sn ∧ PlainText deviceID) ∧
    (ControlFaithful sn deviceID result ↔
      PlainText sn ∧ PlainText deviceID ∧ PlainText result) :=
  ⟨catalogFaithful_iff hsn hd hch, deviceInfoFaithful_iff hsn hd, controlFaithful_iff hsn hd hr⟩

example : parse (ControlResponse (ascii "7") (ascii "3402") (ascii "a<b")) = none := by decide +kernel

/-- A camera called `gate` answers in full. -/
theorem responses_faithful_gate :
    CatalogFaithful (ascii "42") (ascii "3402") [⟨ascii "3403", ascii "gate", -1, []⟩] ∧
      DeviceInfoFaithful (ascii "42") (ascii "3402") ∧
      ControlFaithful (ascii "42") (ascii "3402") (ascii "OK") := by
  have h := @responses_faithful_iff (ascii "42") (ascii "3402") (ascii "OK")
    [⟨ascii "3403", ascii "gate", -1, []⟩] (by decide +kernel) (by decide +kernel)
    (by decide +kernel)
    (List.forall_mem_singleton.mpr ⟨by decide +kernel, by decide +kernel, by decide +kernel⟩)
  exact ⟨h.1.mpr ⟨by decide +kernel, by decide +kernel,
      List.forall_mem_singleton.mpr ⟨by decide +kernel, by decide +kernel, by decide +kernel⟩⟩,
    h.2.1.mpr (by decide +kernel), h.2.2.mpr (by decide +kernel)⟩

/-- A query with the number `4&2` gets an answer that is no document. -/
theorem deviceInfo_unreadable : ¬ ∀ sn deviceID : Bytes, Representable sn →
    Representable deviceID → DeviceInfoFaithful sn deviceID := by
  intro h
  have hnone : parse (DeviceInfoResponse (ascii "4&2") (ascii "3402")) = none := by decide +kernel
  have := h (ascii "4&2") (ascii "3402") (by decide +kernel) (by decide +kernel)
  rw [DeviceInfoFaithful, hnone] at this
  cases this

end FlowAlarm.GbXml
