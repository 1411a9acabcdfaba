import Bitcoin.Proofs.CommandLine.Children
import Bitcoin.Proofs.Text.Outline

/-!
# What is shown tells what it was

The other modules about the command line compare reports with each other and with the calls that
are made for them.  Here it is what a person can tell from a report.

* A message begins with the name of its command (`Message.exists_tall_outline_eq`), so **messages
  that are shown alike have the same command** (`Message.command?_eq_of_tall_outline_eq`).
* A key is shown in lines with labels, the path first (`CommandLine.keyText_eq_labelled`).  **Keys
  that are shown alike are equal** (`CommandLine.eq_of_keyText_eq`), and a seed has no two paths
  that lead to keys that are shown alike (`CommandLine.path_eq_of_deriveReport_eq`).

Both are found in the same way.  What is printed is cut where a word or a line ends, which can be
seen since nothing inside it is such an end (`Text.eq_of_append_eq`): there is no bracket in the name
of a command, and no line feed in a path, in hexadecimal digits or in base58.  For a key the lines
are then read: the one with the public half spells all that is public but the path, the one with the
private half spells the private half, and that line is missing for a watching key.

Nothing is said of the rest of a message.  It is made of names, numbers and quoted texts, and some
addresses and flags are written as people write them, which was not made for reading back.

A key looks like this, with the last line only for those that have a private half:

```
path:        M/0
fingerprint: 8 digits
public key:  66 digits
xpub:        letters
xprv:        letters
```

The labels are the same for every key, so it is the texts behind them that have to be told apart,
and each line ends where its text does.
-/

set_option autoImplicit false

namespace Bitcoin

/-! ## Words and lines -/

namespace Text

variable {inside : Char → Bool}

theorem takeWhile_append_of_stop {word rest : List Char} (hword : ∀ c ∈ word, inside c = true)
    (hrest : ∀ c ∈ rest.head?, inside c = false) : (word ++ rest).takeWhile inside = word := by
  rw [List.takeWhile_append_of_pos hword]
  cases rest with
  | nil => simp
  | cons c rest => simp [hrest c rfl]

/-- A text is cut in one way only into a word and what does not go on with the word. -/
theorem eq_of_append_eq {word other rest more : String}
    (hword : ∀ c ∈ word.toList, inside c = true) (hother : ∀ c ∈ other.toList, inside c = true)
    (hrest : ∀ c ∈ rest.toList.head?, inside c = false)
    (hmore : ∀ c ∈ more.toList.head?, inside c = false) (h : word ++ rest = other ++ more) :
    word = other ∧ rest = more := by
  have hchars : word.toList ++ rest.toList = other.toList ++ more.toList := by
    rw [← String.toList_append, h, String.toList_append]
  have hfront : word.toList = other.toList := by
    rw [← takeWhile_append_of_stop hword hrest, hchars, takeWhile_append_of_stop hother hmore]
  obtain rfl := String.toList_inj.1 hfront
  exact ⟨rfl, String.toList_inj.1 (List.append_cancel_left hchars)⟩

end Text

/-! ## Messages -/

/-- The titles are words of letters and digits. -/
theorem Command.isAlphanum_of_mem_title {command : Command} {c : Char}
    (h : c ∈ command.title.toList) : c.isAlphanum = true := by
  have hall : command.title.toList.all Char.isAlphanum = true := by cases command <;> decide
  exact List.all_eq_true.1 hall c h

theorem Command.title_injective : Function.Injective title := by
  have hnodup : (all.map title).Nodup := by decide
  have hmem : ∀ command : Command, command ∈ all := fun command => by cases command <;> decide
  exact fun command other => List.inj_on_of_nodup_map hnodup (hmem command) (hmem other)

theorem Command.title_ne_unknown (command : Command) : command.title ≠ "Unknown" := by
  cases command <;> decide

/-- No command is shown as another one, or as one that is not known. -/
theorem Command.getD_title_injective :
    Function.Injective fun command? : Option Command => (command?.map title).getD "Unknown" := by
  rintro (_ | command) (_ | other) h
  · rfl
  · exact absurd (Eq.symm h) other.title_ne_unknown
  · exact absurd h command.title_ne_unknown
  · exact congrArg some (title_injective h)

namespace Message

variable {message other : Message}

/-- The name under which a message is shown. -/
def title (message : Message) : String := (message.command?.map Command.title).getD "Unknown"

theorem head_outline (message : Message) : message.outline.head = message.title := by
  cases message <;> rfl

theorem isAlphanum_of_mem_title {c : Char} (h : c ∈ message.title.toList) :
    c.isAlphanum = true := by
  rw [title] at h
  cases hcommand : message.command? with
  | none =>
    have hall : "Unknown".toList.all Char.isAlphanum = true := by decide
    rw [hcommand] at h
    exact List.all_eq_true.1 hall c h
  | some command =>
    rw [hcommand] at h
    exact Command.isAlphanum_of_mem_title h

/-- **A message begins with the name of its command**, and what stands behind the name does not go
on with it. -/
theorem exists_tall_outline_eq (message : Message) :
    ∃ rest, message.outline.tall = message.title ++ rest ∧
      ∀ c ∈ rest.toList.head?, c.isAlphanum = false := by
  obtain ⟨rest, htall, hrest⟩ := message.outline.exists_tall_eq_head
  refine ⟨rest, by rw [htall, head_outline], fun c hc => ?_⟩
  rcases hrest c hc with rfl | rfl | rfl | rfl <;> rfl

/-- **Messages that are shown alike have the same command.** -/
theorem command?_eq_of_tall_outline_eq (h : message.outline.tall = other.outline.tall) :
    message.command? = other.command? := by
  obtain ⟨rest, hmessage, hrest⟩ := message.exists_tall_outline_eq
  obtain ⟨more, hother, hmore⟩ := other.exists_tall_outline_eq
  rw [hmessage, hother] at h
  exact Command.getD_title_injective (Text.eq_of_append_eq (fun _ => isAlphanum_of_mem_title)
    (fun _ => isAlphanum_of_mem_title) hrest hmore h).1

end Message

/-! ## Lines of text -/

/-- Two lines are equal, and so is what follows them, if neither of them ends early. -/
theorem Text.line_inj {line other rest more : String} (hline : '\n' ∉ line.toList)
    (hother : '\n' ∉ other.toList) :
    line ++ ("\n" ++ rest) = other ++ ("\n" ++ more) ↔ line = other ∧ rest = more := by
  constructor
  · intro h
    have hinside : ∀ text : String, '\n' ∉ text.toList →
        ∀ c ∈ text.toList, (c != '\n') = true := by
      intro text htext c hc
      exact bne_iff_ne.2 fun heq => htext (heq ▸ hc)
    obtain ⟨hsame, hbehind⟩ := eq_of_append_eq (hinside line hline) (hinside other hother)
      (by simp) (by simp) h
    exact ⟨hsame, String.append_right_inj _ |>.1 hbehind⟩
  · rintro ⟨rfl, rfl⟩
    rfl

theorem KeyPath.newline_notMem_toString (path : KeyPath) : '\n' ∉ path.toString.toList := by
  rw [toString, String.toList_ofList]
  intro h
  cases isBlank_of_mem_toChars h

theorem Bytes.newline_notMem_toHex (bytes : Bytes) : '\n' ∉ bytes.toHex.toList := by
  have hdigit : ∀ n < 16, hexDigit n ≠ '\n' := by decide
  rw [toHex, String.toList_ofList]
  intro h
  obtain ⟨b, -, hb⟩ := List.mem_flatMap.1 h
  have hbyte : b.toNat < 256 := b.toNat_lt
  simp only [hexPair, List.mem_cons, List.not_mem_nil, or_false] at hb
  rcases hb with hhigh | hlow
  · exact hdigit _ (by omega) hhigh.symm
  · exact hdigit _ (by omega) hlow.symm

/-- Every number has a letter, also those that are no digits. -/
theorem Base58.letter_mem_alphabet (digit : Nat) : letter digit ∈ alphabet := by
  rw [letter, List.getD_eq_getElem?_getD]
  cases hget : alphabet[digit]? with
  | none => decide
  | some c => exact List.mem_of_getElem? hget

theorem Base58.newline_notMem_encodeChecked (data : Bytes) :
    '\n' ∉ (encodeChecked data).toList := by
  have halphabet : '\n' ∉ alphabet := by decide
  rw [encodeChecked, String.toList_ofList, encode, List.mem_append, List.mem_reverse, List.mem_map]
  rintro (hzero | ⟨digit, -, hdigit⟩)
  · cases List.eq_of_mem_replicate hzero
  · exact halphabet (hdigit ▸ letter_mem_alphabet digit)

theorem Base58.encodeChecked_injective : Function.Injective encodeChecked := by
  intro data other h
  have hread := decodeChecked_encodeChecked data
  rw [h, decodeChecked_encodeChecked] at hread
  exact (Except.ok.inj hread).symm

/-! ## Keys -/

namespace ExtendedKey

variable {key other : ExtendedKey} {network : Network}

/-- The bytes of a key tell all of its fields but the path, of which they tell the last step. -/
theorem serialize_inj {version : Nat} {field otherField : FixedBytes 33}
    (hversion : version < Bytes.capacity 4)
    (h : key.serialize version field = other.serialize version otherField) :
    key.depth = other.depth ∧ key.parentFingerprint = other.parentFingerprint ∧
      key.childNumber = other.childNumber ∧ key.chainCode = other.chainCode ∧
      field = otherField := by
  let bytes : FixedBytes serializedLength := ⟨_, other.length_serialize version otherField⟩
  have hbytes : key.serialize version field = bytes.toBytes := h
  have hotherBytes : other.serialize version otherField = bytes.toBytes := rfl
  obtain ⟨-, hdepth, hparent, hchild, hchain, hfield⟩ := (serialize_eq_iff hversion).1 hbytes
  obtain ⟨-, hdepth', hparent', hchild', hchain', hfield'⟩ :=
    (serialize_eq_iff hversion).1 hotherBytes
  exact ⟨hdepth.symm.trans hdepth', hparent.symm.trans hparent', hchild.symm.trans hchild',
    hchain.symm.trans hchain', hfield.symm.trans hfield'⟩

theorem newline_notMem_toPublicText (key : ExtendedKey) (network : Network) :
    '\n' ∉ (key.toPublicText network).toList :=
  Base58.newline_notMem_encodeChecked _

/-- A public half is told by the text of the key, with all other public fields but the path. -/
theorem toPublicText_inj (hkey : key.point.Proper) (hother : other.point.Proper)
    (h : key.toPublicText network = other.toPublicText network) :
    key.depth = other.depth ∧ key.chainCode = other.chainCode ∧ key.point = other.point ∧
      key.parentFingerprint = other.parentFingerprint := by
  obtain ⟨hdepth, hparent, -, hchain, hbytes⟩ :=
    serialize_inj (KeyHalf.version_lt .publicHalf network) (Base58.encodeChecked_injective h)
  have hpoint := Curve.Point.decompress?_compress hkey
  rw [show key.point.compress = other.point.compress from hbytes,
    Curve.Point.decompress?_compress hother] at hpoint
  exact ⟨hdepth, hchain, (Option.some.inj hpoint).symm, hparent⟩

/-- A private half is told by its text. -/
theorem secret_eq_of_toPrivateText_eq {secret otherSecret : Secret}
    (hkey : key.secret = some secret) (hother : other.secret = some otherSecret)
    (h : key.toPrivateText network = other.toPrivateText network) : secret = otherSecret := by
  rw [toPrivateText, toPrivateText, hkey, hother] at h
  obtain ⟨-, -, -, -, hfield⟩ := serialize_inj (KeyHalf.version_lt .privateHalf network)
    (Base58.encodeChecked_injective (Except.ok.inj h))
  have hread := secretOfField_eq_ok_iff.2 hfield
  rw [secretOfField_eq_ok_iff.2 rfl] at hread
  exact (Except.ok.inj hread).symm

end ExtendedKey

namespace CommandLine

open ExtendedKey

variable {network : Network} {seed : String} {key other : ExtendedKey} {path otherPath : KeyPath}

/-- A line with a label, in front of others. -/
def labelled (label text rest : String) : String := label ++ (text ++ ("\n" ++ rest))

/-- The line of the private half, if it is known. -/
def privateLine (key : ExtendedKey) (network : Network) : String :=
  match key.toPrivateText network with
  | .ok text => labelled "xprv:        " text ""
  | .error _ => ""

theorem labelled_inj {label text otherText rest more : String} (htext : '\n' ∉ text.toList)
    (hother : '\n' ∉ otherText.toList) :
    labelled label text rest = labelled label otherText more ↔ text = otherText ∧ rest = more := by
  rw [labelled, labelled, String.append_right_inj, Text.line_inj htext hother]

/-- **A key is shown in lines with labels**, the path first and the private half last. -/
theorem keyText_eq_labelled (key : ExtendedKey) (network : Network) :
    keyText key network =
      labelled "path:        " key.path.toString
        (labelled "fingerprint: " (Bytes.toHex key.fingerprint.toBytes)
          (labelled "public key:  " (Bytes.toHex key.pointBytes.toBytes)
            (labelled "xpub:        " (key.toPublicText network) (privateLine key network)))) := by
  unfold keyText privateLine
  cases key.toPrivateText network with
  | ok text => simp only [labelled, String.append_assoc, String.append_empty]
  | error e => simp only [labelled, String.append_assoc, String.append_empty]

theorem privateLine_of_eq_none (h : key.secret = none) : privateLine key network = "" := by
  have hmissing : key.toPrivateText network = .error .noPrivateHalf := by rw [toPrivateText, h]
  rw [privateLine, hmissing]

theorem privateLine_of_eq_some {secret : Secret} (h : key.secret = some secret) :
    ∃ text, key.toPrivateText network = .ok text ∧ '\n' ∉ text.toList ∧
      privateLine key network = labelled "xprv:        " text "" := by
  have htext : ∃ data, key.toPrivateText network = .ok (Base58.encodeChecked data) := by
    rw [toPrivateText, h]
    exact ⟨_, rfl⟩
  obtain ⟨data, hdata⟩ := htext
  exact ⟨_, hdata, Base58.newline_notMem_encodeChecked data, by rw [privateLine, hdata]⟩

theorem labelled_ne_empty {label text rest : String} : labelled label text rest ≠ "" := by
  simp [labelled]

/-- The line is missing just if the private half is. -/
theorem privateLine_eq_empty_iff : privateLine key network = "" ↔ key.secret = none := by
  refine ⟨fun h => Option.eq_none_iff_forall_ne_some.2 fun secret hsecret => ?_,
    privateLine_of_eq_none⟩
  obtain ⟨_, -, -, hline⟩ := privateLine_of_eq_some hsecret
  exact labelled_ne_empty (hline.symm.trans h)

/-- The last line tells the private half, and whether there is one. -/
theorem secret_eq_of_privateLine_eq (h : privateLine key network = privateLine other network) :
    key.secret = other.secret := by
  cases hkey : key.secret with
  | none => exact (privateLine_eq_empty_iff.1 (h ▸ privateLine_eq_empty_iff.2 hkey)).symm
  | some secret =>
    have hsome : other.secret ≠ none := by
      rw [Ne, ← privateLine_eq_empty_iff, ← h, privateLine_eq_empty_iff, hkey]
      exact Option.some_ne_none secret
    obtain ⟨otherSecret, hother⟩ := Option.ne_none_iff_exists'.1 hsome
    obtain ⟨text, htext, hnewline, hline⟩ := privateLine_of_eq_some hkey
    obtain ⟨otherText, hotherText, hotherNewline, hotherLine⟩ := privateLine_of_eq_some hother
    rw [hline, hotherLine, labelled_inj hnewline hotherNewline] at h
    rw [hother, secret_eq_of_toPrivateText_eq hkey hother (by rw [htext, hotherText, h.1])]

/-- The path is the first thing that is shown of a key. -/
theorem path_eq_of_keyText_eq (h : keyText key network = keyText other network) :
    key.path = other.path := by
  rw [keyText_eq_labelled, keyText_eq_labelled, labelled_inj (KeyPath.newline_notMem_toString _)
    (KeyPath.newline_notMem_toString _)] at h
  exact KeyPath.toString_injective h.1

/-- **Keys that are shown alike are equal**, if their public halves are points as all keys have
them. -/
theorem eq_of_keyText_eq (hkey : key.point.Proper) (hother : other.point.Proper)
    (h : keyText key network = keyText other network) : key = other := by
  have hpath := path_eq_of_keyText_eq h
  rw [keyText_eq_labelled, keyText_eq_labelled, labelled_inj (KeyPath.newline_notMem_toString _)
      (KeyPath.newline_notMem_toString _),
    labelled_inj (Bytes.newline_notMem_toHex _) (Bytes.newline_notMem_toHex _),
    labelled_inj (Bytes.newline_notMem_toHex _) (Bytes.newline_notMem_toHex _),
    labelled_inj (newline_notMem_toPublicText _ _) (newline_notMem_toPublicText _ _)] at h
  obtain ⟨-, -, -, hpublic, hprivate⟩ := h
  obtain ⟨hdepth, hchain, hpoint, hparent⟩ := toPublicText_inj hkey hother hpublic
  have hsecret := secret_eq_of_privateLine_eq hprivate
  obtain ⟨path, depth, chainCode, secret, point, parentFingerprint⟩ := key
  rw [mk.injEq]
  exact ⟨hpath, hdepth, hchain, hsecret, hpoint, hparent⟩

/-- What is shown without an error of a seed and a path is the key at the path. -/
theorem exists_key_of_deriveReport
    (hshown : (deriveReport network seed path.toString).error = none) :
    ∃ master key, masterOfHex seed = .ok master ∧ master.derivePath path = .ok key ∧
      deriveReport network seed path.toString = ⟨keyText key network, none⟩ := by
  cases hmaster : masterOfHex seed with
  | error e =>
    rw [deriveReport_of_error hmaster] at hshown
    cases hshown
  | ok master =>
    rw [deriveReport_of_master hmaster] at hshown ⊢
    cases hkey : master.derivePath path with
    | error e =>
      rw [hkey] at hshown
      cases hshown
    | ok key => exact ⟨master, key, rfl, hkey, rfl⟩

/-- A seed has no two paths whose keys are shown alike. -/
theorem path_eq_of_deriveReport_eq
    (h : deriveReport network seed path.toString = deriveReport network seed otherPath.toString)
    (hshown : (deriveReport network seed path.toString).error = none) : path = otherPath := by
  obtain ⟨master, key, hmaster, hkey, hreport⟩ := exists_key_of_deriveReport hshown
  obtain ⟨_, other, hagain, hother, hotherReport⟩ := exists_key_of_deriveReport (h ▸ hshown)
  obtain rfl := Except.ok.inj (hmaster.symm.trans hagain)
  rw [hreport, hotherReport] at h
  have hpath := path_eq_of_keyText_eq (congrArg Report.printed h)
  rw [path_of_derivePath hkey, path_of_derivePath hother, (fields_of_masterOfHex hmaster).1] at hpath
  exact KeyPath.extend_inj.1 hpath

end CommandLine

end Bitcoin
