/-
Module: Intake.Toml.Reader
Purpose: Reads TOML documents.
Main exports: Toml.readString?, Toml.readKey?, Toml.readValue?, Toml.Node, Toml.read?

A document is a sequence of lines.  A header opens a table, or adds one to a list of tables; a pair of
a key and a value goes into the table opened last.  No table is defined twice, and dotted keys do not
extend a table that has a header of its own.
-/
import Intake.Toml.Token

namespace Intake

namespace Toml

/-! ### Blanks and ends of lines -/

def isWhite (c : Char) : Bool := c == ' ' || c == '\t'

def skipWhite (s : List Char) : List Char := s.dropWhile isWhite

/-- Whether a character may stand in a comment. -/
def isCommentChar (c : Char) : Bool := c == '\t' || (0x20 ≤ c.toNat && c.toNat != 0x7F)

/-- The text behind a comment, if there is one here. -/
def skipComment : List Char → List Char
  | '#' :: rest => rest.dropWhile isCommentChar
  | s => s

/-- The text behind the end of a line; the end of the text ends a line too. -/
def afterNewline? : List Char → Option (List Char)
  | [] => some []
  | '\n' :: rest => some rest
  | '\r' :: '\n' :: rest => some rest
  | _ => none

/-- The text behind the rest of a line, which holds blanks and a comment at most. -/
def afterLine? (s : List Char) : Option (List Char) := afterNewline? (skipComment (skipWhite s))

/-- The text behind blanks, comments and ends of lines, as arrays allow them between items. -/
def skipLines : (fuel : Nat) → List Char → Option (List Char)
  | 0, _ => none
  | fuel + 1, s =>
    match skipWhite s with
    | '#' :: rest =>
      match skipComment ('#' :: rest) with
      | [] => some []
      | rest => (afterNewline? rest).bind (skipLines fuel)
    | '\n' :: rest => skipLines fuel rest
    | '\r' :: '\n' :: rest => skipLines fuel rest
    | other => some other

/-! ### Strings -/

/-- The character that a letter behind a backslash stands for. -/
def escape? : Char → Option Char
  | 'b' => some '\x08'
  | 't' => some '\t'
  | 'n' => some '\n'
  | 'f' => some '\x0c'
  | 'r' => some '\r'
  | '"' => some '"'
  | '\\' => some '\\'
  | _ => none

/-- The character with a number, which is that of no surrogate. -/
def charOf? (n : Nat) : Option Char := if n.isValidChar then some (Char.ofNat n) else none

/-- The character of exactly the given hexadecimal digits. -/
def hexChar? (digits : List Char) : Option Char :=
  if digits.all fun c => (baseDigit? 16 c).isSome then charOf? (baseValue 16 digits) else none

/-- The character of an escape behind its backslash, and the text behind it. -/
def readEscape? : List Char → Option (Char × List Char)
  | 'u' :: a :: b :: c :: d :: rest => (hexChar? [a, b, c, d]).map (·, rest)
  | 'U' :: a :: b :: c :: d :: e :: f :: g :: h :: rest =>
    (hexChar? [a, b, c, d, e, f, g, h]).map (·, rest)
  | c :: rest => (escape? c).map (·, rest)
  | [] => none

/-- Whether a character may stand unescaped in a string, apart from quotes and backslashes. -/
def isPlain (c : Char) : Bool := isCommentChar c

/-- A string in quotes on one line, behind the opening quote. -/
def readBasic? : (fuel : Nat) → List Char → Option (List Char × List Char)
  | 0, _ => none
  | fuel + 1, s =>
    match s with
    | '"' :: rest => some ([], rest)
    | '\\' :: rest =>
      (readEscape? rest).bind fun (c, rest) =>
        (readBasic? fuel rest).map fun (text, rest) => (c :: text, rest)
    | c :: rest =>
      if isPlain c then (readBasic? fuel rest).map fun (text, rest) => (c :: text, rest) else none
    | [] => none

/-- A string in single quotes on one line, behind the opening quote; nothing is escaped. -/
def readLiteral? (s : List Char) : Option (List Char × List Char) :=
  let isInside (c : Char) : Bool := isPlain c && c != '\''
  match s.dropWhile isInside with
  | '\'' :: rest => some (s.takeWhile isInside, rest)
  | _ => none

/-- The text behind blanks and ends of lines. -/
def skipBlankLines : List Char → List Char
  | ' ' :: rest => skipBlankLines rest
  | '\t' :: rest => skipBlankLines rest
  | '\n' :: rest => skipBlankLines rest
  | '\r' :: '\n' :: rest => skipBlankLines rest
  | s => s

/-- The text behind a backslash at the end of a line: blanks and ends of lines are skipped. -/
def afterLineEnding? (s : List Char) : Option (List Char) :=
  match skipWhite s with
  | '\n' :: rest => some (skipBlankLines rest)
  | '\r' :: '\n' :: rest => some (skipBlankLines rest)
  | _ => none

/-- A run of quotes in a string of several lines: fewer than three belong to it, three close it, and up
to two more in front of the closing ones belong to it.  Gives how many belong to it, and whether it is
closed. -/
def quoteRun? (n : Nat) : Option (Nat × Bool) :=
  if n < 3 then some (n, false) else if n ≤ 5 then some (n - 3, true) else none

/-- A string of several lines in quotes, behind the opening quotes and the end of their line. -/
def readMultiBasic? : (fuel : Nat) → List Char → Option (List Char × List Char)
  | 0, _ => none
  | fuel + 1, s =>
    match s with
    | [] => none
    | '"' :: _ =>
      (quoteRun? (s.takeWhile (· == '"')).length).bind fun (kept, closed) =>
        let quotes := List.replicate kept '"'
        let rest := s.dropWhile (· == '"')
        if closed then some (quotes, rest)
        else (readMultiBasic? fuel rest).map fun (text, rest) => (quotes ++ text, rest)
    | '\\' :: rest =>
      match afterLineEnding? rest with
      | some rest => readMultiBasic? fuel rest
      | none =>
        (readEscape? rest).bind fun (c, rest) =>
          (readMultiBasic? fuel rest).map fun (text, rest) => (c :: text, rest)
    | '\r' :: '\n' :: rest =>
      (readMultiBasic? fuel rest).map fun (text, rest) => ('\n' :: text, rest)
    | c :: rest =>
      if isPlain c || c == '\n' then
        (readMultiBasic? fuel rest).map fun (text, rest) => (c :: text, rest)
      else none

/-- A string of several lines in single quotes, behind the opening ones and the end of their line. -/
def readMultiLiteral? : (fuel : Nat) → List Char → Option (List Char × List Char)
  | 0, _ => none
  | fuel + 1, s =>
    match s with
    | [] => none
    | '\'' :: _ =>
      (quoteRun? (s.takeWhile (· == '\'')).length).bind fun (kept, closed) =>
        let quotes := List.replicate kept '\''
        let rest := s.dropWhile (· == '\'')
        if closed then some (quotes, rest)
        else (readMultiLiteral? fuel rest).map fun (text, rest) => (quotes ++ text, rest)
    | '\r' :: '\n' :: rest =>
      (readMultiLiteral? fuel rest).map fun (text, rest) => ('\n' :: text, rest)
    | c :: rest =>
      if isPlain c || c == '\n' then
        (readMultiLiteral? fuel rest).map fun (text, rest) => (c :: text, rest)
      else none

/-- The text without an end of line at its start. -/
def skipFirstNewline : List Char → List Char
  | '\n' :: rest => rest
  | '\r' :: '\n' :: rest => rest
  | s => s

/-- A string of any of the four forms. -/
def readString? (s : List Char) : Option (String × List Char) :=
  let fuel := s.length + 1
  let read :=
    match s with
    | '"' :: '"' :: '"' :: rest => readMultiBasic? fuel (skipFirstNewline rest)
    | '\'' :: '\'' :: '\'' :: rest => readMultiLiteral? fuel (skipFirstNewline rest)
    | '"' :: rest => readBasic? fuel rest
    | '\'' :: rest => readLiteral? rest
    | _ => none
  read.map fun (text, rest) => (String.ofList text, rest)

/-! ### Keys -/

/-- The characters of a key without quotes. -/
def isBareChar (c : Char) : Bool := c.isAlphanum || c == '_' || c == '-'

/-- One part of a key: a bare word or a string on one line. -/
def readKeyPart? (s : List Char) : Option (String × List Char) :=
  match s with
  | '"' :: rest =>
    (readBasic? (s.length + 1) rest).map fun (text, rest) => (String.ofList text, rest)
  | '\'' :: rest => (readLiteral? rest).map fun (text, rest) => (String.ofList text, rest)
  | _ =>
    let word := s.takeWhile isBareChar
    if word = [] then none else some (String.ofList word, s.dropWhile isBareChar)

/-- The parts of a key with dots between them; blanks may surround each part. -/
def readKeyParts? : (fuel : Nat) → List Char → Option (List String × List Char)
  | 0, _ => none
  | fuel + 1, s =>
    match readKeyPart? (skipWhite s) with
    | none => none
    | some (part, rest) =>
      match skipWhite rest with
      | '.' :: rest => (readKeyParts? fuel rest).map fun (parts, rest) => (part :: parts, rest)
      | rest => some ([part], rest)

/-- One more than the greatest depth of arrays and inline tables, and than the number of parts that a
key has at most. -/
def depthLimit : Nat := 80

def readKey? (s : List Char) : Option (List String × List Char) :=
  (readKeyParts? (s.length + 1) s).bind fun (parts, rest) =>
    if parts.length < depthLimit then some (parts, rest) else none

/-! ### Tables under construction

A table has one header at most, but headers and dotted keys of other tables may lead through it before and after.
The nodes remember how they came to be, so that what may no longer be added is refused. -/

/-- A value, a table, or a list of tables.  A table is implicit until it gets a header of its own, and
dotted if a dotted key made it. -/
inductive Node where
  | value (v : Toml)
  | table (isImplicit isDotted : Bool) (fields : List (String × Node))
  | tables (elements : List Node)
  deriving Inhabited

namespace Node

def lookup? (key : String) : List (String × Node) → Option Node
  | [] => none
  | (k, v) :: rest => if k = key then some v else lookup? key rest

/-- The fields with the value of a key replaced, or added at the end. -/
def replace (key : String) (node : Node) : List (String × Node) → List (String × Node)
  | [] => [(key, node)]
  | (k, v) :: rest => if k = key then (k, node) :: rest else (k, v) :: replace key node rest

/-- A change to the last of a list of nodes. -/
def changeLast? (change : Node → Option Node) : List Node → Option (List Node)
  | [] => none
  | [last] => (change last).map ([·])
  | first :: rest => (changeLast? change rest).map (first :: ·)

/-- A change to the table at a path, made where it is missing.  The last of a list of tables stands for
the list.  A dotted path enters only tables without a header. -/
def changeAt? (dotted : Bool) : List String → (Node → Option Node) → Node → Option Node
  | [], change, node => change node
  | key :: path, change, .table isImplicit isDotted fields =>
    let changed :=
      match lookup? key fields with
      | none => changeAt? dotted path change (.table true dotted [])
      | some (.value _) => none
      | some (.tables elements) =>
        (changeLast? (changeAt? dotted path change) elements).map .tables
      | some (.table isImplicit isDotted fields) =>
        if dotted && !isImplicit then none
        else changeAt? dotted path change (.table isImplicit isDotted fields)
    changed.map fun node => .table isImplicit isDotted (replace key node fields)
  | _ :: _, _, _ => none

/-- A new field in a table; a dotted path may only lead to a table that a dotted key made. -/
def addField? (throughDots : Bool) (key : String) (node : Node) : Node → Option Node
  | .table isImplicit isDotted fields =>
    if isDotted = throughDots ∧ (lookup? key fields).isNone then
      some (.table isImplicit isDotted (fields ++ [(key, node)]))
    else none
  | _ => none

/-- A value under a dotted key, below a table. -/
def addValue? (path : List String) (value : Toml) (node : Node) : Option Node :=
  match path.getLast? with
  | none => none
  | some key =>
    let above := path.dropLast
    changeAt? true above (addField? (above != []) key (.value value)) node

/-- A table opened by a header; it may be implicit so far. -/
def openTable? (path : List String) (root : Node) : Option Node :=
  match path.getLast? with
  | none => none
  | some key =>
    changeAt? false path.dropLast
      (fun parent =>
        match parent with
        | .table isImplicit isDotted fields =>
          match lookup? key fields with
          | none => some (.table isImplicit isDotted (fields ++ [(key, .table false false [])]))
          | some (.table true false inner) =>
            some (.table isImplicit isDotted (replace key (.table false false inner) fields))
          | some _ => none
        | _ => none)
      root

/-- A table added to the list of tables at a path. -/
def appendTable? (path : List String) (root : Node) : Option Node :=
  match path.getLast? with
  | none => none
  | some key =>
    changeAt? false path.dropLast
      (fun parent =>
        match parent with
        | .table isImplicit isDotted fields =>
          match lookup? key fields with
          | none =>
            some (.table isImplicit isDotted (fields ++ [(key, .tables [.table false false []])]))
          | some (.tables elements) =>
            some (.table isImplicit isDotted
              (replace key (.tables (elements ++ [.table false false []])) fields))
          | some _ => none
        | _ => none)
      root

mutual

/-- The value of a finished node. -/
def toToml : Node → Toml
  | .value v => v
  | .table _ _ fields => .table (fieldsToToml fields)
  | .tables elements => .array (elementsToToml elements)

def fieldsToToml : List (String × Node) → List (String × Toml)
  | [] => []
  | (k, node) :: rest => (k, toToml node) :: fieldsToToml rest

def elementsToToml : List Node → List Toml
  | [] => []
  | node :: rest => toToml node :: elementsToToml rest

end

end Node

/-- The table of an inline table's pairs. -/
def inlineTable? (pairs : List (List String × Toml)) : Option Toml :=
  (pairs.foldlM (fun node (path, value) => Node.addValue? path value node)
    (Node.table false false [])).map Node.toToml

/-! ### Values -/

/-- A word, where a date and a time may also stand with a single space between them. -/
def readWordValue? (s : List Char) : Option (Toml × List Char) :=
  let word := s.takeWhile isWordChar
  let rest := s.dropWhile isWordChar
  match rest with
  | ' ' :: after =>
    let time := after.takeWhile isWordChar
    if isDate word && isTime true time then some (.dateTime, after.dropWhile isWordChar)
    else (readWord? word).map (·, rest)
  | _ => (readWord? word).map (·, rest)

mutual

/-- A value at the start of a text; `depth` is the number of arrays and inline tables around it. -/
def readValue? : (fuel depth : Nat) → List Char → Option (Toml × List Char)
  | 0, _, _ => none
  | fuel + 1, depth, s =>
    match s with
    | '"' :: _ => (readString? s).map fun (text, rest) => (.string text, rest)
    | '\'' :: _ => (readString? s).map fun (text, rest) => (.string text, rest)
    | '[' :: rest =>
      if depth + 1 < depthLimit then
        (readItems? fuel (depth + 1) rest).map fun (items, rest) => (.array items, rest)
      else none
    | '\x7b' :: rest =>
      if depth + 1 < depthLimit then
        match skipWhite rest with
        | '\x7d' :: rest => some (.table [], rest)
        | rest =>
          (readPairs? fuel (depth + 1) rest).bind fun (pairs, rest) =>
            (inlineTable? pairs).map (·, rest)
      else none
    | _ => readWordValue? s

/-- The items of an array up to its closing bracket; a comma may follow the last one. -/
def readItems? : (fuel depth : Nat) → List Char → Option (List Toml × List Char)
  | 0, _, _ => none
  | fuel + 1, depth, s =>
    match skipLines (s.length + 1) s with
    | none => none
    | some (']' :: rest) => some ([], rest)
    | some s =>
      match readValue? fuel depth s with
      | none => none
      | some (item, rest) =>
        match skipLines (rest.length + 1) rest with
        | some (',' :: rest) =>
          (readItems? fuel depth rest).map fun (items, rest) => (item :: items, rest)
        | some (']' :: rest) => some ([item], rest)
        | _ => none

/-- The pairs of an inline table up to its closing brace; no comma follows the last one. -/
def readPairs? : (fuel depth : Nat) → List Char → Option (List (List String × Toml) × List Char)
  | 0, _, _ => none
  | fuel + 1, depth, s =>
    match readKey? s with
    | some (key, '=' :: rest) =>
      match readValue? fuel depth (skipWhite rest) with
      | none => none
      | some (value, rest) =>
        match skipWhite rest with
        | ',' :: rest =>
          (readPairs? fuel depth rest).map fun (pairs, rest) => ((key, value) :: pairs, rest)
        | '\x7d' :: rest => some ([(key, value)], rest)
        | _ => none
    | _ => none

end

/-! ### Documents -/

/-- A document so far: its tables and the path of the one opened last. -/
structure Draft where
  root : Node
  path : List String

def Draft.empty : Draft := ⟨.table false false [], []⟩

/-- One line with more than blanks in it. -/
inductive Line where
  | pair (key : List String) (value : Toml)
  | header (path : List String)
  | element (path : List String)

/-- A line of a document and the text behind it. -/
def readLine? (s : List Char) : Option (Line × List Char) :=
  match s with
  | '[' :: '[' :: rest =>
    match readKey? rest with
    | some (path, ']' :: ']' :: rest) => (afterLine? rest).map (.element path, ·)
    | _ => none
  | '[' :: rest =>
    match readKey? rest with
    | some (path, ']' :: rest) => (afterLine? rest).map (.header path, ·)
    | _ => none
  | _ =>
    match readKey? s with
    | some (key, '=' :: rest) =>
      let rest := skipWhite rest
      match readValue? (2 * rest.length + 2) 0 rest with
      | some (value, rest) => (afterLine? rest).map (.pair key value, ·)
      | none => none
    | _ => none

/-- A document with one more line. -/
def Draft.add? (draft : Draft) : Line → Option Draft
  | .pair key value =>
    (Node.changeAt? false draft.path (Node.addValue? key value) draft.root).map
      fun root => { draft with root }
  | .header path => (Node.openTable? path draft.root).map fun root => ⟨root, path⟩
  | .element path => (Node.appendTable? path draft.root).map fun root => ⟨root, path⟩

/-- Reads lines to the end of the text. -/
def readLines? : (fuel : Nat) → Draft → List Char → Option Draft
  | 0, _, _ => none
  | fuel + 1, draft, s =>
    match skipWhite s with
    | [] => some draft
    | '#' :: rest => (afterLine? ('#' :: rest)).bind (readLines? fuel draft)
    | '\n' :: rest => readLines? fuel draft rest
    | '\r' :: '\n' :: rest => readLines? fuel draft rest
    | other =>
      match readLine? other with
      | none => none
      | some (line, rest) =>
        match draft.add? line with
        | none => none
        | some draft => readLines? fuel draft rest

/-- The text without a byte order mark at its start. -/
def skipMark : List Char → List Char
  | '\ufeff' :: rest => rest
  | s => s

def readChars? (s : List Char) : Option Toml :=
  let s := skipMark s
  (readLines? (s.length + 1) .empty s).map fun draft => draft.root.toToml

/-- The table that a document describes. -/
def read? (s : String) : Option Toml := readChars? s.toList

end Toml

end Intake
