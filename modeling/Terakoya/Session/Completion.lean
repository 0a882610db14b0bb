import Terakoya.Text.Blank

/-! Completions of a line: it is continued by a word that begins with the end of the line. Words need
no blanks between them, so the longest end that begins a word is the one to be completed. -/
namespace Terakoya.Completion

def vocabulary : List String :=
  ["もし", "ならば", "そうでなければ", "回くり返す", "回繰り返す", "くり返しを抜ける", "が答え", "入力", "に対し",
    "に対して", "を増やす", "を減らす", "の末尾に", "を追加する", "とする", "以上", "以下", "より大きい", "より小さい",
    "未満", "以外", ":help", ":env", ":clear", ":stats", ":emit", ":quit"]

def isSeparator (c : Char) : Bool := c = ' ' || c = '\t'

def divide (line : List Char) : List Char × List Char :=
  let word := (line.reverse.takeWhile fun c => !isSeparator c).reverse
  (line.take (line.length - word.length), word)

def isProperPrefix (s word : List Char) : Bool := s.isPrefixOf word && s ≠ word

/-- Completes the first of the ends of a line that begins the word; `before` is what stands before
them. -/
def extend? (word : List Char) : (before ends : List Char) → Option (List Char)
  | _, [] => none
  | before, c :: rest =>
    if isProperPrefix (c :: rest) word then some (before ++ word)
    else extend? word (before ++ [c]) rest

def insert (s : String) : List String → List String
  | [] => [s]
  | t :: rest => if s < t then s :: t :: rest else if s = t then t :: rest else t :: insert s rest

/-- The completions of a line by the vocabulary and other names, in increasing order. A line that is
blank or ends with a blank has none. -/
def complete (line : String) (names : List String) : List String :=
  let cs := line.toList
  if cs.all Text.isSpace || cs.getLast?.any isSeparator then []
  else
    let (before, ends) := divide cs
    let found := (vocabulary ++ names).filterMap fun w => extend? w.toList before ends
    found.foldl (fun out s => insert (String.ofList s) out) []

end Terakoya.Completion
