import AmdgpuFand.Fandcfg
import AmdgpuFand.Lib.Ere
import AmdgpuFand.Strutils

/-!
# The configuration file (`config.c`)

`config_parse` reads the file line by line with `fgets`, so an open file is the list of
the lines still to be read. A setting is a line `key = value`; for the key `matrix` the
rows on the following lines are joined to the value with `;` by
`config_append_matrix_rows` before the handler, `config_set_matrix`, takes them apart
again.

The parser writes into the record it is given and only there: what a failed parse leaves
in it is part of the result. The system log is not modelled.
-/

namespace AmdgpuFand

open CLib Ere

/-- `CONFIG_BUFFER_SIZE` -/
abbrev configBufferSize : ℕ := 256

/-- `CONFIG_KEY_SIZE` -/
abbrev configKeySize : ℕ := 64

/-- `CONFIG_NUMBUF_SIZE` -/
abbrev configNumbufSize : ℕ := 4

/-! ## Patterns -/

/-- The character `c`, inside group `g`. -/
def chr (c : Char) (g : ℕ) : Node := .chars .one (· = c) g

/-- `[0-9]+` -/
def digits (g : ℕ) : Node := .chars .plus Char.isDigit g

/-- `\s*` -/
def spaces : Node := .chars .star isSpace 0

/-- `'[0-9]+::[0-9]+'`, inside the first group. -/
def rowPattern : Regex :=
  [chr '\x27' 1, digits 1, chr ':' 1, chr ':' 1, digits 1, chr '\x27' 1]

/-- `\s*(\('[0-9]+::[0-9]+')\s*$` -/
def mpatStart : Regex := spaces :: chr '(' 1 :: rowPattern ++ [spaces, .eol]

/-- `\s*('[0-9]+::[0-9]+')\s*$` -/
def mpatMid : Regex := spaces :: rowPattern ++ [spaces, .eol]

/-- `\s*('[0-9]+::[0-9]+'\))\s*$` -/
def mpatEnd : Regex := spaces :: rowPattern ++ [chr ')' 1, spaces, .eol]

/-- `[;(]'([0-9]+)::([0-9]+)'.*[;)]` -/
def matvRegex : Regex :=
  [.chars .one (fun c => c = ';' || c = '(') 0, chr '\x27' 0, digits 1, chr ':' 0, chr ':' 0,
    digits 2, chr '\x27' 0, .chars .star (fun _ => true) 0,
    .chars .one (fun c => c = ';' || c = ')') 0]

/-- `^\s*(\S+)\s*=\s*"?([^" ]+)"?\s*$` -/
def valregex : Regex :=
  [.bol, spaces, .chars .plus (fun c => !isSpace c) 1, spaces, chr '=' 0, spaces,
    .chars .opt (· = '\x22') 0, .chars .plus (fun c => c != '\x22' && c != ' ') 2,
    .chars .opt (· = '\x22') 0, spaces, .eol]

/-- The text of group `k` of the match, if there is one. -/
def submatch (re : Regex) (k : ℕ) (s : List Char) : Option (List Char) :=
  (regexec re s).map (group re k)

/-! ## Lines -/

/-- `config_replace_char(buffer, c, '\0')`: the string ends at the first `c`. -/
def configReplaceChar (c : Char) (buffer : List Char) : List Char := buffer.takeWhile (· ≠ c)

/-- `config_strip_comments` -/
def configStripComments (buffer : List Char) : List Char := configReplaceChar '#' buffer

/-- `config_line_empty` -/
def configLineEmpty (buffer : List Char) : Bool :=
  buffer.all fun c => c = ' ' || c = '\x0c' || c = '\n' || c = '\r' || c = '\t'

/-- The string that `config_parse` works on after reading a line. -/
def configLine (line : List Char) : List Char :=
  configStripComments (configReplaceChar '\n' (cstr line))

/-! ## Handlers -/

/-- `config_set_interval` -/
def configSetInterval (data : FandConfig) (value : List Char) : ℤ × FandConfig :=
  let r := strstoulRange value 0 65535
  if r.1 ≠ 0 then (r.1, data) else (0, { data with interval := r.2.toUInt16 })

/-- `config_set_hysteresis` -/
def configSetHysteresis (data : FandConfig) (value : List Char) : ℤ × FandConfig :=
  let r := strstoulRange value 0 255
  if r.1 ≠ 0 then (r.1, data) else (0, { data with hysteresis := r.2.toUInt8 })

/-- `config_set_throttle` -/
def configSetThrottle (data : FandConfig) (value : List Char) : ℤ × FandConfig :=
  if value = ['t', 'r', 'u', 'e'] then (0, { data with throttle := true })
  else if value = ['f', 'a', 'l', 's', 'e'] then (0, { data with throttle := false })
  else (-1, data)

/-- A number of a matrix row, copied to `numbuf` and converted. -/
def configNumber (digits : List Char) (high : UInt64) : Option UInt8 :=
  let numbuf := strsncpyStr digits configNumbufSize digits.length
  if numbuf.1 < 0 then none
  else
    let r := strstoulRange numbuf.2 0 high
    if r.1 ≠ 0 then none else some r.2.toUInt8

/-- The body of the loop of `config_set_matrix`: temperature and speed of the first row
in `value`. -/
def configMatrixRow (value : List Char) : Option (UInt8 × UInt8) :=
  match regexec matvRegex value with
  | none => none
  | some pmatch =>
    match configNumber (group matvRegex 1 pmatch) 255 with
    | none => none
    | some temp =>
      match configNumber (group matvRegex 2 pmatch) 100 with
      | none => none
      | some speed => some (temp, speed)

/-- `data->matrix[matrix_rows * 2] = temp` and the speed next to it. -/
def FandConfig.setRow (data : FandConfig) (matrixRows : ℕ) (row : UInt8 × UInt8) : FandConfig :=
  { data with
    matrix := (data.matrix.setIfInBounds (matrixRows * 2) row.1).setIfInBounds
      (matrixRows * 2 + 1) row.2 }

/-- The loop of `config_set_matrix`, with `n` rows of the array left: the status,
`matrix_rows` and what is in `data` when it ends. -/
def configSetMatrixLoop : ℕ → ℕ → Option (List Char) → FandConfig → ℤ × ℕ × FandConfig
  | 0, matrixRows, _, data => (0, matrixRows, data)
  | _ + 1, matrixRows, none, data => (0, matrixRows, data)
  | n + 1, matrixRows, some value, data =>
    match configMatrixRow value with
    | none => (-1, matrixRows, data)
    | some row =>
      configSetMatrixLoop n (matrixRows + 1) (strchr ';' (value.drop 1))
        (data.setRow matrixRows row)

/-- `config_set_matrix` -/
def configSetMatrix (data : FandConfig) (value : List Char) : ℤ × FandConfig :=
  let r := configSetMatrixLoop maxTempThresholds 0 (some value) data
  if r.1 ≠ 0 then (r.1, r.2.2)
  else if r.2.1 = maxTempThresholds then (-1, r.2.2)
  else (0, { r.2.2 with matrixRows := UInt8.ofNat r.2.1 })

/-- The settings. -/
inductive ConfigKey where
  | interval
  | hysteresis
  | matrix
  | throttle
  deriving DecidableEq, Repr

/-- The key of a setting in the file. -/
def ConfigKey.name : ConfigKey → List Char
  | interval => ['i', 'n', 't', 'e', 'r', 'v', 'a', 'l']
  | hysteresis => ['h', 'y', 's', 't', 'e', 'r', 'e', 's', 'i', 's']
  | matrix => ['m', 'a', 't', 'r', 'i', 'x']
  | throttle => ['a', 'g', 'g', 'r', 'e', 's', 's', 'i', 'v', 'e', '_', 't', 'h', 'r', 'o', 't',
      't', 'l', 'e']

/-- The function that stores a setting. -/
def ConfigKey.handler : ConfigKey → FandConfig → List Char → ℤ × FandConfig
  | interval => configSetInterval
  | hysteresis => configSetHysteresis
  | matrix => configSetMatrix
  | throttle => configSetThrottle

/-- `config_map` -/
def configMap : List ConfigKey := [.interval, .hysteresis, .matrix, .throttle]

/-! ## Joining the matrix -/

/-- The text joined so far and the position to write at. -/
structure Joined where
  /-- the string in `value` -/
  value : List Char
  /-- `pos`, from where the next piece is written -/
  pos : ℤ

/-- `pos += copy(value + pos, …)`, where `copied` is what the copy returned and wrote. -/
def Joined.put (j : Joined) (copied : ℤ × List Char) : Joined :=
  ⟨j.value.take j.pos.toNat ++ copied.2, j.pos + copied.1⟩

/-- `pos += strscpy(value + pos, ";", valsize - pos)` -/
def Joined.putSeparator (j : Joined) (valsize : ℕ) : Joined :=
  j.put (strscpyStr [';'] (valsize - j.pos.toNat))

/-- `pos += strsncpy(value + pos, …, valsize - pos, …)`, of the text a pattern captured. -/
def Joined.putRow (j : Joined) (valsize : ℕ) (row : List Char) : Joined :=
  j.put (strsncpyStr row (valsize - j.pos.toNat) row.length)

/-- The loop of `config_append_matrix_rows`: the joined text and the lines behind the
matrix. -/
def configAppendLoop (valsize : ℕ) :
    List (List Char) → ℕ → Joined → Option (List Char × List (List Char))
  | [], _, _ => none
  | buffer :: fp, matrixRows, j =>
    if matrixMaxSize / 2 < matrixRows + 1 then none
    else if (j.putSeparator valsize).pos < 0 then none
    else
      match submatch mpatMid 1 (cstr buffer) with
      | some row =>
        if ((j.putSeparator valsize).putRow valsize row).pos < 0 then none
        else configAppendLoop valsize fp (matrixRows + 1)
          ((j.putSeparator valsize).putRow valsize row)
      | none =>
        match submatch mpatEnd 1 (cstr buffer) with
        | some row =>
          if ((j.putSeparator valsize).putRow valsize row).pos < 0 then none
          else some (((j.putSeparator valsize).putRow valsize row).value, fp)
        -- a line without a row still leaves its separator behind
        | none => configAppendLoop valsize fp (matrixRows + 1) (j.putSeparator valsize)

/-- `config_append_matrix_rows` -/
def configAppendMatrixRows (value : List Char) (valsize : ℕ) (fp : List (List Char)) :
    Option (List Char × List (List Char)) :=
  match submatch mpatStart 1 value with
  | none => none
  | some row =>
    let buffer := strsncpyStr row configBufferSize row.length
    if buffer.1 < 0 then none
    else
      let pos := strscpyStr buffer.2 valsize
      if pos.1 < 0 then none else configAppendLoop valsize fp 0 ⟨pos.2, pos.1⟩

/-! ## The parser -/

/-- The key and the value on a line. -/
def configPair (buffer : List Char) : Option (List Char × List Char) :=
  match regexec valregex buffer with
  | none => none
  | some pmatch =>
    let key := group valregex 1 pmatch
    let value := group valregex 2 pmatch
    if (strsncpyStr key configKeySize key.length).1 < 0 then none
    else if (strsncpyStr value configBufferSize value.length).1 < 0 then none
    else some (strtolower (strsncpyStr key configKeySize key.length).2,
      (strsncpyStr value configBufferSize value.length).2)

/-- The value of a setting, with the rows of a matrix joined to it, and the lines behind. -/
def configValue (key value : List Char) (fp : List (List Char)) :
    Option (List Char × List (List Char)) :=
  if key = ConfigKey.matrix.name then configAppendMatrixRows value configBufferSize fp
  else some (value, fp)

/-- One setting: its entry of `config_map`, the value for the handler and the lines
behind. -/
def configSetting (buffer : List Char) (fp : List (List Char)) :
    Option (ConfigKey × List Char × List (List Char)) :=
  match configPair buffer with
  | none => none
  | some (key, value) =>
    match configValue key value fp with
    | none => none
    | some (value, fp) =>
      match configMap.find? (fun k => k.name = key) with
      | none => none
      | some k => some (k, value, fp)

/-- The loop of `config_parse`, for at most `n` lines that are not part of a matrix. -/
def configParseLoop : ℕ → List (List Char) → FandConfig → ℤ × FandConfig
  | 0, _, data => (0, data)
  | _ + 1, [], data => (0, data)
  | n + 1, line :: fp, data =>
    if configLineEmpty (configLine line) then configParseLoop n fp data
    else
      match configSetting (configLine line) fp with
      | none => (-1, data)
      | some (k, value, fp) =>
        if (k.handler data value).1 ≠ 0 then k.handler data value
        else configParseLoop n fp (k.handler data value).2

/-- `config_parse`; no text is a file that cannot be opened. -/
def configParse (file : Option (List Char)) (data : FandConfig) : ℤ × FandConfig :=
  match file with
  | none => (-1, data)
  | some text =>
    let fp := linesOf configBufferSize text
    -- every setting takes at least one line, so the number of lines is enough
    let r := configParseLoop fp.length fp data
    if r.1 ≠ 0 then r
    else if r.2.matrixRows = 0 then (-1, r.2)
    else r

end AmdgpuFand
