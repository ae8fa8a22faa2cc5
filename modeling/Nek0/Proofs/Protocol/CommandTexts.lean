import Nek0.Protocol.Commands
import Nek0.Proofs.Protocol.Headers
import Mathlib.Data.List.TakeWhile

/-!
# `Nek0.Proofs.Protocol.CommandTexts`: commands are read as they were written

What is written with `OutCommand` is read item by item, with the same names and values
(`items_written`). A value may hold any bytes: none of them can end it or start another argument. A
name is text that the parser takes as one (`GoodName`).

The parser takes any bytes. What it makes of them can be written and read again (`items_rewritten`),
if the names are texts: `OutCommand` takes no others (`exists_written_iff`).
-/

set_option autoImplicit false

namespace Nek0.Proofs.Protocol

open Nek0.Protocol
open Nek0.Protocol.CommandParser
open Nek0.Protocol.CommandArgument

/-- An item, with the value that is meant. -/
inductive Item where
  | arg (name value : List UInt8)
  | next
  deriving DecidableEq, Repr

/-- An item that was read. -/
def Item.read : CommandItem → Item
  | .argument a => .arg a.name a.get
  | .nextCommand => .next

/-- What is written into a command. -/
inductive Written where
  | arg (name value : String)
  | binArg (name : String) (value : List UInt8)
  | newPart
  deriving DecidableEq

/-- The item that is meant. -/
def Written.item : Written → Item
  | .arg name value => .arg (asBytes name) (asBytes value)
  | .binArg name value => .arg (asBytes name) value
  | .newPart => .next

/-- It is written. -/
def Written.write (c : OutCommand) : Written → OutCommand
  | .arg name value => c.writeArg name value
  | .binArg name value => c.writeBinArg name value
  | .newPart => c.startNewPart

/-- A name that stands for itself. -/
structure GoodName (name : List UInt8) : Prop where
  notEmpty : name ≠ []
  inside : ∀ c ∈ name, endsName c = false
  start : ∀ c, name.head? = some c → isSpace c = false

/-! ### Values -/

/-- What holds of the first 256 numbers holds of every byte. -/
theorem forall_byte {P : UInt8 → Prop} (h : ∀ n : Fin 256, P (.ofNat n)) (b : UInt8) : P b := by
  have hb := h ⟨b.toNat, b.toNat_lt⟩
  rwa [UInt8.ofNat_toNat] at hb

/-- A byte is written as it is, or as a backslash and a byte that stands for it. -/
theorem escapeByte_cases (c : UInt8) :
    (escapeByte c = [c] ∧ endsValue c = false ∧ c ≠ backslash) ∨
      ∃ e, escapeByte c = [backslash, e] ∧ endsValue e = false ∧ unescapeByte e = c ∧
        escapeByte c ≠ [c] := by
  have hall : (escapeByte c = [c] ∧ endsValue c = false ∧ c ≠ backslash) ∨
      (escapeByte c = [backslash, (escapeByte c).getD 1 0] ∧
        endsValue ((escapeByte c).getD 1 0) = false ∧
          unescapeByte ((escapeByte c).getD 1 0) = c ∧ escapeByte c ≠ [c]) := by
    revert c
    exact forall_byte (by decide +kernel)
  exact hall.imp_right fun h => ⟨_, h⟩

theorem endsValue_backslash : endsValue backslash = false := by decide

theorem escape_cons (c : UInt8) (v : List UInt8) : escape (c :: v) = escapeByte c ++ escape v :=
  List.flatMap_cons

/-- The number of bytes that are written as escape sequences. -/
def escapes (v : List UInt8) : Nat := v.countP fun c => escapeByte c ≠ [c]

theorem escapes_cons_of_eq {c : UInt8} {v : List UInt8} (h : escapeByte c = [c]) :
    escapes (c :: v) = escapes v :=
  List.countP_cons_of_neg (by rw [decide_eq_true_iff]; exact not_not.mpr h)

theorem escapes_cons_of_ne {c : UInt8} {v : List UInt8} (h : escapeByte c ≠ [c]) :
    escapes (c :: v) = escapes v + 1 :=
  List.countP_cons_of_pos (decide_eq_true h)

/-- The text ends, or goes on with a byte that ends a value. -/
def Closed (rest : List UInt8) : Prop := ∀ c, rest.head? = some c → endsValue c = true

/-- A written value is read to its end. -/
theorem value_escape (v : List UInt8) {rest : List UInt8} (hrest : Closed rest) :
    value false (escape v ++ rest) = (escape v, escapes v, rest) := by
  induction v with
  | nil =>
      cases rest with
      | nil => rfl
      | cons c rest =>
          show value false (c :: rest) = _
          rw [value, if_pos (hrest c rfl)]
          rfl
  | cons c v ih =>
      rw [escape_cons]
      rcases escapeByte_cases c with ⟨hsame, hends, hne⟩ | ⟨e, hpair, hends, -, hne⟩
      · rw [hsame, escapes_cons_of_eq hsame]
        show value false (c :: (escape v ++ rest)) = _
        rw [value, hends]
        simp [hne, ih]
      · rw [hpair, escapes_cons_of_ne hne]
        show value false (backslash :: e :: (escape v ++ rest)) = _
        -- The byte behind the backslash is not looked at.
        rw [value, endsValue_backslash, value, hends]
        simp [ih]

theorem unescape_cons_of_ne {c : UInt8} (h : c ≠ backslash) (rest : List UInt8) :
    unescape (c :: rest) = c :: unescape rest := by
  cases rest with
  | nil => simp [unescape, h]
  | cons d rest => rw [unescape, if_neg h]

/-- Unescaping gives the value back. -/
theorem unescape_escape (v : List UInt8) : unescape (escape v) = v := by
  induction v with
  | nil => rfl
  | cons c v ih =>
      rw [escape_cons]
      -- A byte stands for itself, or is escaped to a backslash and a letter that is read back.
      rcases escapeByte_cases c with ⟨hsame, -, hne⟩ | ⟨e, hpair, -, hback, -⟩
      · rw [hsame]
        show unescape (c :: escape v) = _
        rw [unescape_cons_of_ne hne, ih]
      · rw [hpair]
        show unescape (backslash :: e :: escape v) = _
        rw [unescape, if_pos rfl, hback, ih]

/-- A value without escapes is written as it is. -/
theorem escape_of_escapes_eq_zero {v : List UInt8} (h : escapes v = 0) : escape v = v := by
  induction v with
  | nil => rfl
  | cons c v ih =>
      by_cases hc : escapeByte c = [c]
      · rw [escapes_cons_of_eq hc] at h
        rw [escape_cons, hc, ih h]
        rfl
      · rw [escapes_cons_of_ne hc] at h
        cases h

/-- A written value is the one that is got. -/
theorem get_escape (name v : List UInt8) :
    (CommandArgument.mk name (escape v) (escapes v)).get = v := by
  rw [CommandArgument.get]
  split
  · next h => exact escape_of_escapes_eq_zero h
  · exact unescape_escape v

/-! ### Items -/

/-- How a value is written behind its name. -/
def valueText (v : List UInt8) : List UInt8 := if v.isEmpty then [] else equals :: escape v

/-- How items are written. `fresh`: nothing has to stand before an argument. -/
def text : Bool → List Item → List UInt8
  | _, [] => []
  | fresh, .arg name v :: is =>
    (if fresh then [] else [space]) ++ (name ++ (valueText v ++ text false is))
  | _, .next :: is => pipe :: text true is

/-- Behind an argument a text ends, or goes on with a space or with `|`. -/
theorem head_text (is : List Item) :
    ∀ c, (text false is).head? = some c → c = space ∨ c = pipe := by
  intro c hc
  cases is with
  | nil => cases hc
  | cons i is =>
      cases i with
      | arg name v =>
          cases hc
          exact .inl rfl
      | next =>
          cases hc
          exact .inr rfl

theorem closed_text (is : List Item) : Closed (text false is) := by
  intro c hc
  rcases head_text is c hc with rfl | rfl <;> decide

/-- A name is taken up to where it ends. -/
theorem span_name {name rest : List UInt8} (hname : ∀ c ∈ name, endsName c = false)
    (hrest : ∀ c, rest.head? = some c → endsName c = true) :
    (name ++ rest).takeWhile (fun c => !endsName c) = name ∧
      (name ++ rest).dropWhile (fun c => !endsName c) = rest := by
  have hall : ∀ c ∈ name, (!endsName c) = true := fun c hc => by rw [hname c hc]; rfl
  have hstop : rest.takeWhile (fun c => !endsName c) = [] ∧
      rest.dropWhile (fun c => !endsName c) = rest := by
    cases rest with
    | nil => exact ⟨rfl, rfl⟩
    | cons c rest =>
        have hc : ¬(!endsName c) = true := by
          rw [hrest c rfl]
          decide
        exact ⟨List.takeWhile_cons_of_neg hc, List.dropWhile_cons_of_neg hc⟩
  rw [List.takeWhile_append_of_pos hall, List.dropWhile_append_of_pos hall, hstop.1, hstop.2,
    List.append_nil]
  exact ⟨rfl, rfl⟩

/-- One written argument is read. -/
theorem next_argument {name : List UInt8} (hname : GoodName name) (v : List UInt8)
    (fresh : Bool) (is : List Item) :
    ∃ a, next (text fresh (.arg name v :: is)) = some (.argument a, text false is) ∧
      a.name = name ∧ a.get = v := by
  obtain ⟨c, left, rfl⟩ := List.exists_cons_of_ne_nil hname.notEmpty
  have hc : isSpace c = false := hname.start c rfl
  have hpipe : c ≠ pipe := by
    intro heq
    have hends := hname.inside c List.mem_cons_self
    rw [heq] at hends
    revert hends
    decide
  -- The space in front of an item is skipped. The first byte of the name is no space.
  have hskip : (text fresh (.arg (c :: left) v :: is)).dropWhile isSpace =
      c :: (left ++ (valueText v ++ text false is)) := by
    cases fresh with
    | true => exact List.dropWhile_cons_of_neg (by rw [hc]; decide)
    | false =>
        show (space :: c :: _).dropWhile isSpace = _
        rw [List.dropWhile_cons_of_pos (by decide)]
        exact List.dropWhile_cons_of_neg (by rw [hc]; decide)
  -- Behind the name stands what ends a name: an equals sign, a space or a pipe.
  have hrest : ∀ d, (valueText v ++ text false is).head? = some d → endsName d = true := by
    intro d hd
    rw [valueText] at hd
    split at hd
    · rcases head_text is d hd with rfl | rfl <;> decide
    · cases hd
      decide
  obtain ⟨htake, hdrop⟩ := span_name hname.inside hrest
  rw [List.cons_append] at htake hdrop
  -- An empty value is written without an equals sign, and read as a name alone.
  cases v with
  | nil =>
      refine ⟨⟨c :: left, [], 0⟩, ?_, rfl, rfl⟩
      rw [next, hskip]
      simp only [if_neg hpipe, htake, hdrop]
      have htext' : valueText [] ++ text false is = text false is := rfl
      rw [htext']
      cases htext : text false is with
      | nil => rfl
      | cons d rest' =>
          have hd : d ≠ equals := by
            rcases head_text is d (by rw [htext]; rfl) with rfl | rfl <;> decide
          exact if_neg hd
  -- Any other value is written behind an equals sign and escaped.
  | cons b v =>
      refine ⟨⟨c :: left, escape (b :: v), escapes (b :: v)⟩, ?_, rfl, get_escape _ _⟩
      rw [next, hskip]
      simp only [if_neg hpipe, htake, hdrop]
      show (if equals = equals then _ else _) = _
      rw [if_pos rfl]
      show some (CommandItem.argument ⟨c :: left,
        (value false (escape (b :: v) ++ text false is)).1,
        (value false (escape (b :: v) ++ text false is)).2.1⟩,
          (value false (escape (b :: v) ++ text false is)).2.2) = _
      rw [value_escape (b :: v) (closed_text is)]

/-- Written items are read. -/
theorem items_text (fresh : Bool) (is : List Item)
    (hnames : ∀ name v, .arg name v ∈ is → GoodName name) :
    (items (text fresh is)).map Item.read = is := by
  induction is generalizing fresh with
  | nil =>
      have hnone : next (text fresh []) = none := by cases fresh <;> rfl
      rw [items_of_none hnone]
      rfl
  | cons i is ih =>
      have ih' := fun fresh => ih fresh fun name v h => hnames name v (List.mem_cons_of_mem i h)
      cases i with
      | arg name v =>
          obtain ⟨a, hnext, hname, hget⟩ :=
            next_argument (hnames name v List.mem_cons_self) v fresh is
          rw [items_of_some hnext, List.map_cons, ih' false, Item.read, hname, hget]
      | next =>
          have hnext : next (text fresh (.next :: is)) = some (.nextCommand, text true is) := by
            cases fresh <;> rfl
          rw [items_of_some hnext, List.map_cons, ih' true, Item.read]

/-! ### Whole commands -/

/-- Nothing has to stand before the next argument. -/
def isFresh (content : List UInt8) : Bool := content.getLast? = some pipe ∨ content = []

theorem separator_eq (content : List UInt8) :
    OutCommand.separator content = if isFresh content then [] else [space] := by
  rw [OutCommand.separator, isFresh]
  by_cases hlast : content.getLast? = some pipe <;> by_cases hempty : content = [] <;>
    simp [hlast, hempty]

/-- An escaped value has no pipe, so it does not start a new part. -/
theorem pipe_notMem_escape (v : List UInt8) : pipe ∉ escape v := by
  intro hmem
  obtain ⟨c, -, hc⟩ := List.mem_flatMap.mp hmem
  rcases escapeByte_cases c with ⟨hsame, hends, -⟩ | ⟨e, hpair, hends, -, -⟩
  · rw [hsame] at hc
    rw [← List.mem_singleton.mp hc] at hends
    revert hends
    decide
  · rw [hpair] at hc
    rcases List.mem_cons.mp hc with heq | hmem
    · exact absurd heq (by decide)
    · rw [← List.mem_singleton.mp hmem] at hends
      revert hends
      decide

/-- Behind an argument something has to stand before the next one. -/
theorem isFresh_argument {name : List UInt8} (hname : GoodName name) (content v : List UInt8) :
    isFresh (content ++ (name ++ valueText v)) = false := by
  have hnotMem : pipe ∉ name ++ valueText v := by
    rw [List.mem_append]
    rintro (hmem | hmem)
    · have hends := hname.inside pipe hmem
      revert hends
      decide
    · rw [valueText] at hmem
      split at hmem
      · cases hmem
      · rcases List.mem_cons.mp hmem with heq | hmem'
        · exact absurd heq (by decide)
        · exact pipe_notMem_escape v hmem'
  have hne : name ++ valueText v ≠ [] := by simp [hname.notEmpty]
  have hlast : (content ++ (name ++ valueText v)).getLast? ≠ some pipe := by
    rw [List.getLast?_append_of_ne_nil _ hne]
    exact fun h => hnotMem (List.mem_of_getLast? h)
  have hempty : content ++ (name ++ valueText v) ≠ [] := by simp [hname.notEmpty]
  rw [isFresh, decide_eq_false_iff_not]
  rintro (h | h)
  · exact hlast h
  · exact hempty h

/-- Both ways to write an argument write the same. -/
theorem writeArg_eq (c : OutCommand) (name value : String) :
    c.writeArg name value = c.writeBinArg name (asBytes value) := by
  unfold OutCommand.writeArg OutCommand.writeBinArg
  cases asBytes value with
  | nil => rfl
  | cons b v =>
      have hne : ¬(escape (b :: v)).length = 0 := by
        rw [escape_cons, List.length_append]
        rcases escapeByte_cases b with ⟨hsame, -⟩ | ⟨e, hpair, -⟩
        · rw [hsame, List.length_singleton]
          omega
        · rw [hpair, List.length_cons]
          omega
      simp only [if_neg hne]
      rfl

/-- The content after an argument. -/
theorem content_writeBinArg (c : OutCommand) {name : String} (hname : GoodName (asBytes name))
    (v : List UInt8) :
    (c.writeBinArg name v).packet.content = c.packet.content ++
        ((if isFresh c.packet.content then [] else [space]) ++ (asBytes name ++ valueText v)) ∧
      isFresh (c.writeBinArg name v).packet.content = false := by
  have hcontent : (c.writeBinArg name v).packet.content = c.packet.content ++
      ((if isFresh c.packet.content then [] else [space]) ++ (asBytes name ++ valueText v)) := by
    rw [OutCommand.writeBinArg, content_extend, separator_eq, valueText, List.append_assoc]
  refine ⟨hcontent, ?_⟩
  rw [hcontent, ← List.append_assoc]
  exact isFresh_argument hname _ v

/-- The content that items are written to. -/
theorem content_foldl_write (ws : List Written)
    (hnames : ∀ name v, .arg name v ∈ ws.map Written.item → GoodName name) (c : OutCommand) :
    (ws.foldl Written.write c).packet.content =
      c.packet.content ++ text (isFresh c.packet.content) (ws.map Written.item) := by
  induction ws generalizing c with
  | nil =>
      cases hfresh : isFresh c.packet.content <;> exact (List.append_nil _).symm
  | cons w ws ih =>
      have ih' := ih fun name v h => hnames name v (List.mem_cons_of_mem _ h)
      have hbin : ∀ {name : String} {v : List UInt8}, GoodName (asBytes name) →
          (ws.foldl Written.write (c.writeBinArg name v)).packet.content = c.packet.content ++
            text (isFresh c.packet.content) (.arg (asBytes name) v :: ws.map Written.item) := by
        intro name v hname
        obtain ⟨hcontent, hfresh⟩ := content_writeBinArg c hname v
        rw [ih', hfresh, hcontent, text]
        simp only [List.append_assoc]
      cases w with
      | arg name value =>
          rw [List.foldl_cons, Written.write, writeArg_eq]
          exact hbin (hnames _ _ List.mem_cons_self)
      | binArg name value =>
          rw [List.foldl_cons, Written.write]
          exact hbin (hnames _ _ List.mem_cons_self)
      | newPart =>
          have hcontent : c.startNewPart.packet.content = c.packet.content ++ [pipe] :=
            content_extend _ _
          have hfresh : isFresh c.startNewPart.packet.content = true := by
            rw [hcontent, isFresh, List.getLast?_append_of_ne_nil _ (List.cons_ne_nil _ _)]
            rfl
          rw [List.foldl_cons, Written.write, ih', hfresh, hcontent, List.map_cons, Written.item,
            text, List.append_assoc]
          rfl

/-- The name of a command is read, when an argument or nothing follows. -/
theorem new_text {name : List UInt8} (halnum : ∀ c ∈ name, isAsciiAlphanumeric c = true)
    {is : List Item} (hfirst : is.head? ≠ some .next) :
    CommandParser.new (name ++ text false is) = (name, text false is) := by
  have hdrop : (name ++ text false is).dropWhile isAsciiAlphanumeric =
      (text false is).dropWhile isAsciiAlphanumeric := List.dropWhile_append_of_pos halnum
  have htake : (name ++ text false is).takeWhile isAsciiAlphanumeric =
      name ++ (text false is).takeWhile isAsciiAlphanumeric := List.takeWhile_append_of_pos halnum
  rw [CommandParser.new, hdrop]
  cases is with
  | nil =>
      show (name ++ [], _) = _
      rw [List.append_nil]
      rfl
  | cons i is =>
      cases i with
      | next => exact absurd rfl hfirst
      | arg arg v =>
          have hspace : isAsciiAlphanumeric space = false := by decide
          have hhead : text false (.arg arg v :: is) =
              space :: (arg ++ (valueText v ++ text false is)) := rfl
          rw [hhead] at htake ⊢
          rw [List.takeWhile_cons_of_neg (by rw [hspace]; decide), List.append_nil] at htake
          rw [List.dropWhile_cons_of_neg (by rw [hspace]; decide)]
          simp only [if_true, htake]

/-- The content of a written command. -/
theorem content_written (dir : Direction) (flags : Flags) (t : PacketType) {name : String}
    {ws : List Written} (hname : asBytes name ≠ [])
    (halnum : ∀ c ∈ asBytes name, isAsciiAlphanumeric c = true)
    (hnames : ∀ arg v, .arg arg v ∈ ws.map Written.item → GoodName arg) :
    (ws.foldl Written.write (.new dir flags t name)).packet.content =
      asBytes name ++ text false (ws.map Written.item) := by
  have hcontent : (OutCommand.new dir flags t name).packet.content = asBytes name := by
    rw [OutCommand.new, content_extend, content_newWithDir, List.nil_append]
  have hfresh : isFresh (asBytes name) = false := by
    rw [isFresh, decide_eq_false_iff_not]
    rintro (h | h)
    · have hpipe := halnum pipe (List.mem_of_getLast? h)
      revert hpipe
      decide
    · exact hname h
  rw [content_foldl_write ws hnames, hcontent, hfresh]

/-- The name and the items are read. -/
theorem read_text {name : List UInt8} (halnum : ∀ c ∈ name, isAsciiAlphanumeric c = true)
    {is : List Item} (hnames : ∀ arg v, .arg arg v ∈ is → GoodName arg)
    (hfirst : is.head? ≠ some .next) :
    (CommandParser.new (name ++ text false is)).1 = name ∧
      (items (CommandParser.new (name ++ text false is)).2).map Item.read = is := by
  rw [new_text halnum hfirst]
  exact ⟨rfl, items_text false is hnames⟩

/-- What is written into a command is read from it: the name, and all the items in their order, each
with its value. The name of the command is alphanumeric, the names of the arguments stand for
themselves, and the first item is an argument. -/
theorem items_written (dir : Direction) (flags : Flags) (t : PacketType) (name : String)
    (ws : List Written) (hname : asBytes name ≠ [])
    (halnum : ∀ c ∈ asBytes name, isAsciiAlphanumeric c = true)
    (hnames : ∀ arg v, .arg arg v ∈ ws.map Written.item → GoodName arg)
    (hfirst : ws.head? ≠ some .newPart) :
    let content := (ws.foldl Written.write (.new dir flags t name)).packet.content
    (CommandParser.new content).1 = asBytes name ∧
      (items (CommandParser.new content).2).map Item.read = ws.map Written.item := by
  have hfirst' : (ws.map Written.item).head? ≠ some .next := by
    cases ws with
    | nil => simp
    | cons w ws =>
        cases w with
        | newPart => exact absurd rfl hfirst
        | arg name value => simp [Written.item]
        | binArg name value => simp [Written.item]
  rw [content_written dir flags t hname halnum hnames]
  exact read_text halnum hnames hfirst'

/-- A command of two parts. One value holds what ends a value, the other one is empty. -/
def twoParts : List Written := [.arg "cid" "1 |\\", .newPart, .binArg "es" []]

/-- The names `cid` and `es` can be written. -/
theorem goodName_twoParts :
    ∀ arg v, .arg arg v ∈ twoParts.map Written.item → GoodName arg := by
  have hcid : GoodName (asBytes "cid") :=
    ⟨by decide +kernel, by decide +kernel, by decide +kernel⟩
  have hes : GoodName (asBytes "es") :=
    ⟨by decide +kernel, by decide +kernel, by decide +kernel⟩
  intro arg v hmem
  simp only [twoParts, List.map_cons, List.map_nil, Written.item, List.mem_cons, Item.arg.injEq,
    List.not_mem_nil, or_false, reduceCtorEq, false_or] at hmem
  rcases hmem with ⟨rfl, -⟩ | ⟨rfl, -⟩
  · exact hcid
  · exact hes

/-- The two parts are read as written. -/
theorem items_written_twoParts :
    let content := (twoParts.foldl Written.write (.new .s2c .empty .command "cmd")).packet.content
    (CommandParser.new content).1 = asBytes "cmd" ∧
      (items (CommandParser.new content).2).map Item.read = twoParts.map Written.item :=
  items_written .s2c .empty .command "cmd" twoParts (by decide +kernel)
    (by decide +kernel) goodName_twoParts (by decide)

/-! ### Any text -/

/-- A name that was read has no end of a name in it, and starts behind the spaces. -/
theorem name_next {data rest : List UInt8} {a : CommandArgument}
    (h : next data = some (.argument a, rest)) :
    (∀ c ∈ a.name, endsName c = false) ∧ ∀ c, a.name.head? = some c → isSpace c = false := by
  rw [next] at h
  split at h
  · cases h
  · next c left hleft =>
      have hc : isSpace c = false := not_of_dropWhile_eq_cons hleft
      split at h
      · cases h
      · dsimp only at h
        have hname : a.name = (c :: left).takeWhile fun c => !endsName c := by
          split at h
          · cases h
            rfl
          · split at h
            · cases h
              rfl
            · cases h
              rfl
        rw [hname]
        constructor
        · intro d hd
          have hnot := List.mem_takeWhile_imp hd
          rwa [Bool.not_eq_true'] at hnot
        · intro d hd
          have hfirst : d = c := by
            rw [List.takeWhile_cons] at hd
            split at hd
            · cases hd
              rfl
            · cases hd
          rw [hfirst]
          exact hc

/-- So have all the names that are read from a text. -/
theorem name_items {data : List UInt8} {a : CommandArgument} (h : .argument a ∈ items data) :
    (∀ c ∈ a.name, endsName c = false) ∧ ∀ c, a.name.head? = some c → isSpace c = false := by
  induction data using items.induct with
  | case1 data hnone =>
      rw [items_of_none hnone] at h
      cases h
  | case2 data item rest hsome ih =>
      rw [items_of_some hsome] at h
      cases List.mem_cons.mp h with
      | inl heq => exact name_next (heq ▸ hsome)
      | inr hmem => exact ih hmem

/-- The name of a command is alphanumeric. -/
theorem name_new (data : List UInt8) :
    ∀ c ∈ (CommandParser.new data).1, isAsciiAlphanumeric c = true := by
  intro c hc
  rw [CommandParser.new] at hc
  split at hc
  · next hdrop => exact List.dropWhile_eq_nil_iff.mp hdrop c hc
  · split at hc
    · exact List.mem_takeWhile_imp hc
    · cases hc

/-- Alphanumeric bytes are a text. -/
theorem exists_asBytes_of_alphanumeric {name : List UInt8}
    (h : ∀ c ∈ name, isAsciiAlphanumeric c = true) : ∃ text, asBytes text = name := by
  have hbyte : ∀ c : UInt8, isAsciiAlphanumeric c = true →
      String.utf8EncodeChar (.ofNat c.toNat) = [c] := forall_byte (by decide +kernel)
  refine ⟨.ofList (name.map fun c => .ofNat c.toNat), ?_⟩
  have hencode : (name.map fun c => Char.ofNat c.toNat).flatMap String.utf8EncodeChar = name := by
    induction name with
    | nil => rfl
    | cons c name ih =>
        rw [List.map_cons, List.flatMap_cons, hbyte c (h c List.mem_cons_self),
          ih fun d hd => h d (List.mem_cons_of_mem c hd)]
        rfl
  rw [asBytes, String.toByteArray_ofList, List.utf8Encode, hencode, List.data_toByteArray]

/-- Items can be written if and only if the names of the arguments are texts. -/
theorem exists_written_iff (is : List Item) :
    (∃ ws : List Written, ws.map Written.item = is) ↔
      ∀ arg v, .arg arg v ∈ is → ∃ name, asBytes name = arg := by
  constructor
  · rintro ⟨ws, rfl⟩ arg v hmem
    obtain ⟨w, -, hw⟩ := List.mem_map.mp hmem
    cases w with
    | arg name value =>
        cases hw
        exact ⟨name, rfl⟩
    | binArg name value =>
        cases hw
        exact ⟨name, rfl⟩
    | newPart => cases hw
  · intro hnames
    induction is with
    | nil => exact ⟨[], rfl⟩
    | cons i is ih =>
        obtain ⟨ws, hws⟩ := ih fun arg v h => hnames arg v (List.mem_cons_of_mem i h)
        cases i with
        | arg arg v =>
            obtain ⟨name, rfl⟩ := hnames arg v List.mem_cons_self
            exact ⟨.binArg name v :: ws, by rw [List.map_cons, hws, Written.item]⟩
        | next => exact ⟨.newPart :: ws, by rw [List.map_cons, hws, Written.item]⟩

/-- What was read from any bytes with a command's name can be written again and is read as before:
the name, and the items with their values. The first item must not be `|`, no argument may be
without a name, and the names must be texts. -/
theorem items_rewritten (dir : Direction) (flags : Flags) (t : PacketType) (data : List UInt8) :
    let name := (CommandParser.new data).1
    let is := (items (CommandParser.new data).2).map Item.read
    name ≠ [] → is.head? ≠ some .next → (∀ v, .arg [] v ∉ is) →
      (∀ arg v, .arg arg v ∈ is → ∃ text, asBytes text = arg) →
      ∃ (cmd : String) (ws : List Written), asBytes cmd = name ∧ ws.map Written.item = is ∧
        let again := (ws.foldl Written.write (.new dir flags t cmd)).packet.content
        (CommandParser.new again).1 = name ∧
          (items (CommandParser.new again).2).map Item.read = is := by
  intro name is hname hfirst hnamed htexts
  have hnames : ∀ arg v, .arg arg v ∈ is → GoodName arg := by
    intro arg v hmem
    obtain ⟨item, hitem, hread⟩ := List.mem_map.mp hmem
    cases item with
    | nextCommand => cases hread
    | argument a =>
        cases hread
        obtain ⟨hinside, hstart⟩ := name_items hitem
        exact ⟨fun hempty => hnamed a.get (hempty ▸ hmem), hinside, hstart⟩
  obtain ⟨ws, hws⟩ := (exists_written_iff is).mpr htexts
  obtain ⟨cmd, hcmd⟩ := exists_asBytes_of_alphanumeric (name_new data)
  refine ⟨cmd, ws, hcmd, hws, ?_⟩
  intro again
  have hcontent : again = name ++ text false is := by
    rw [show again = _ from content_written dir flags t (hcmd ▸ hname) (hcmd ▸ name_new data)
      (hws ▸ hnames), hcmd, hws]
  rw [hcontent]
  exact read_text (name_new data) hnames hfirst

/-- The command of two parts is read as written, also after it was written again. -/
theorem items_rewritten_twoParts :
    let data := asBytes "cmd" ++ text false (twoParts.map Written.item)
    ∃ (cmd : String) (ws : List Written), asBytes cmd = asBytes "cmd" ∧
      ws.map Written.item = twoParts.map Written.item ∧
      let again := (ws.foldl Written.write (.new .s2c .empty .command cmd)).packet.content
      (items (CommandParser.new data).2).map Item.read = twoParts.map Written.item ∧
        (items (CommandParser.new again).2).map Item.read = twoParts.map Written.item := by
  obtain ⟨hname, hitems⟩ := @read_text (asBytes "cmd") (by decide +kernel)
    (twoParts.map Written.item) goodName_twoParts (by decide +kernel)
  have hagain := items_rewritten .s2c .empty .command
    (asBytes "cmd" ++ text false (twoParts.map Written.item))
  dsimp only at hagain
  rw [hname, hitems] at hagain
  have hnamed : ∀ v, Item.arg [] v ∉ twoParts.map Written.item :=
    fun v hmem => (goodName_twoParts [] v hmem).notEmpty rfl
  obtain ⟨cmd, ws, hcmd, hws, -, hread⟩ := hagain (by decide +kernel) (by decide +kernel) hnamed
    ((exists_written_iff _).mp ⟨twoParts, rfl⟩)
  exact ⟨cmd, ws, hcmd, hws, hitems, hread⟩

end Nek0.Proofs.Protocol
