import CallByValue.Template.Kind
/-!
# Members of texts

The operations of texts, with what is said about each.
-/

namespace CallByValue

namespace Template

namespace Member

def ofTexts : List Member :=
  [maker] ++
  builtIns ["__repr__", "__hash__", "__str__", "__getattribute__", "__lt__", "__le__", "__eq__",
    "__ne__", "__gt__", "__ge__", "__iter__", "__mod__", "__rmod__", "__len__", "__getitem__",
    "__add__", "__mul__", "__rmul__", "__contains__"] ++
  [⟨"encode", .operation, some "($self, /, encoding='utf-8', errors='strict')",
     some ("Encode the string using the codec registered for encoding.\n\n" ++
        "  encoding\n" ++
        "    The encoding in which to encode the string.\n" ++
        "  errors\n" ++
        "    The error handling scheme to use for encoding errors.\n" ++
        "    The default is 'strict' meaning that encoding errors raise a\n" ++
        "    UnicodeEncodeError.  Other possible values are 'ignore', 'replace' and\n" ++
        "    'xmlcharrefreplace' as well as any other name registered with\n" ++
        "    codecs.register_error that can handle UnicodeEncodeErrors.")⟩,
   ⟨"replace", .operation, some "($self, old, new, count=-1, /)",
     some ("Return a copy with all occurrences of substring old replaced by new.\n\n" ++
        "  count\n" ++
        "    Maximum number of occurrences to replace.\n" ++
        "    -1 (the default value) means replace all occurrences.\n\n" ++
        "If the optional argument count is given, only the first count occurrences are\n" ++
        "replaced.")⟩,
   ⟨"split", .operation, some "($self, /, sep=None, maxsplit=-1)",
     some ("Return a list of the substrings in the string, using sep as the separator " ++
        "string.\n\n" ++
        "  sep\n" ++
        "    The separator used to split the string.\n\n" ++
        "    When set to None (the default value), will split on any whitespace\n" ++
        "    character (including \\\\n \\\\r \\\\t \\\\f and spaces) and will discard\n" ++
        "    empty strings from the result.\n" ++
        "  maxsplit\n" ++
        "    Maximum number of splits (starting from the left).\n" ++
        "    -1 (the default value) means no limit.\n\n" ++
        "Note, str.split() is mainly useful for data that has been intentionally\n" ++
        "delimited.  With natural text that includes punctuation, consider using\n" ++
        "the regular expression module.")⟩,
   ⟨"rsplit", .operation, some "($self, /, sep=None, maxsplit=-1)",
     some ("Return a list of the substrings in the string, using sep as the separator " ++
        "string.\n\n" ++
        "  sep\n" ++
        "    The separator used to split the string.\n\n" ++
        "    When set to None (the default value), will split on any whitespace\n" ++
        "    character (including \\\\n \\\\r \\\\t \\\\f and spaces) and will discard\n" ++
        "    empty strings from the result.\n" ++
        "  maxsplit\n" ++
        "    Maximum number of splits (starting from the left).\n" ++
        "    -1 (the default value) means no limit.\n\n" ++
        "Splitting starts at the end of the string and works to the front.")⟩,
   ⟨"join", .operation, some "($self, iterable, /)",
     some ("Concatenate any number of strings.\n\n" ++
        "The string whose method is called is inserted in between each given string.\n" ++
        "The result is returned as a new string.\n\n" ++
        "Example: '.'.join(['ab', 'pq', 'rs']) -> 'ab.pq.rs'")⟩,
   ⟨"capitalize", .operation, some "($self, /)",
     some ("Return a capitalized version of the string.\n\n" ++
        "More specifically, make the first character have upper case and the rest lower\n" ++
        "case.")⟩,
   ⟨"casefold", .operation, some "($self, /)",
     some "Return a version of the string suitable for caseless comparisons."⟩,
   ⟨"title", .operation, some "($self, /)",
     some ("Return a version of the string where each word is titlecased.\n\n" ++
        "More specifically, words start with uppercased characters and all remaining\n" ++
        "cased characters have lower case.")⟩,
   ⟨"center", .operation, some "($self, width, fillchar=' ', /)",
     some ("Return a centered string of length width.\n\n" ++
        "Padding is done using the specified fill character (default is a space).")⟩,
   ⟨"count", .operation, none,
     some ("S.count(sub[, start[, end]]) -> int\n\n" ++
        "Return the number of non-overlapping occurrences of substring sub in\n" ++
        "string S[start:end].  Optional arguments start and end are\n" ++
        "interpreted as in slice notation.")⟩,
   ⟨"expandtabs", .operation, some "($self, /, tabsize=8)",
     some ("Return a copy where all tab characters are expanded using spaces.\n\n" ++
        "If tabsize is not given, a tab size of 8 characters is assumed.")⟩,
   ⟨"find", .operation, none,
     some ("S.find(sub[, start[, end]]) -> int\n\n" ++
        "Return the lowest index in S where substring sub is found,\n" ++
        "such that sub is contained within S[start:end].  Optional\n" ++
        "arguments start and end are interpreted as in slice notation.\n\n" ++
        "Return -1 on failure.")⟩,
   ⟨"partition", .operation, some "($self, sep, /)",
     some ("Partition the string into three parts using the given separator.\n\n" ++
        "This will search for the separator in the string.  If the separator is found,\n" ++
        "returns a 3-tuple containing the part before the separator, the separator\n" ++
        "itself, and the part after it.\n\n" ++
        "If the separator is not found, returns a 3-tuple containing the original string\n" ++
        "and two empty strings.")⟩,
   ⟨"index", .operation, none,
     some ("S.index(sub[, start[, end]]) -> int\n\n" ++
        "Return the lowest index in S where substring sub is found,\n" ++
        "such that sub is contained within S[start:end].  Optional\n" ++
        "arguments start and end are interpreted as in slice notation.\n\n" ++
        "Raises ValueError when the substring is not found.")⟩,
   ⟨"ljust", .operation, some "($self, width, fillchar=' ', /)",
     some ("Return a left-justified string of length width.\n\n" ++
        "Padding is done using the specified fill character (default is a space).")⟩,
   ⟨"lower", .operation, some "($self, /)",
     some "Return a copy of the string converted to lowercase."⟩,
   ⟨"lstrip", .operation, some "($self, chars=None, /)",
     some ("Return a copy of the string with leading whitespace removed.\n\n" ++
        "If chars is given and not None, remove characters in chars instead.")⟩,
   ⟨"rfind", .operation, none,
     some ("S.rfind(sub[, start[, end]]) -> int\n\n" ++
        "Return the highest index in S where substring sub is found,\n" ++
        "such that sub is contained within S[start:end].  Optional\n" ++
        "arguments start and end are interpreted as in slice notation.\n\n" ++
        "Return -1 on failure.")⟩,
   ⟨"rindex", .operation, none,
     some ("S.rindex(sub[, start[, end]]) -> int\n\n" ++
        "Return the highest index in S where substring sub is found,\n" ++
        "such that sub is contained within S[start:end].  Optional\n" ++
        "arguments start and end are interpreted as in slice notation.\n\n" ++
        "Raises ValueError when the substring is not found.")⟩,
   ⟨"rjust", .operation, some "($self, width, fillchar=' ', /)",
     some ("Return a right-justified string of length width.\n\n" ++
        "Padding is done using the specified fill character (default is a space).")⟩,
   ⟨"rstrip", .operation, some "($self, chars=None, /)",
     some ("Return a copy of the string with trailing whitespace removed.\n\n" ++
        "If chars is given and not None, remove characters in chars instead.")⟩,
   ⟨"rpartition", .operation, some "($self, sep, /)",
     some ("Partition the string into three parts using the given separator.\n\n" ++
        "This will search for the separator in the string, starting at the end. If\n" ++
        "the separator is found, returns a 3-tuple containing the part before the\n" ++
        "separator, the separator itself, and the part after it.\n\n" ++
        "If the separator is not found, returns a 3-tuple containing two empty strings\n" ++
        "and the original string.")⟩,
   ⟨"splitlines", .operation, some "($self, /, keepends=False)",
     some ("Return a list of the lines in the string, breaking at line boundaries.\n\n" ++
        "Line breaks are not included in the resulting list unless keepends is given and\n" ++
        "true.")⟩,
   ⟨"strip", .operation, some "($self, chars=None, /)",
     some ("Return a copy of the string with leading and trailing whitespace removed.\n\n" ++
        "If chars is given and not None, remove characters in chars instead.")⟩,
   ⟨"swapcase", .operation, some "($self, /)",
     some "Convert uppercase characters to lowercase and lowercase characters to uppercase."⟩,
   ⟨"translate", .operation, some "($self, table, /)",
     some ("Replace each character in the string using the given translation table.\n\n" ++
        "  table\n" ++
        "    Translation table, which must be a mapping of Unicode ordinals to\n" ++
        "    Unicode ordinals, strings, or None.\n\n" ++
        "The table must implement lookup/indexing via __getitem__, for instance a\n" ++
        "dictionary or list.  If this operation raises LookupError, the character is\n" ++
        "left untouched.  Characters mapped to None are deleted.")⟩,
   ⟨"upper", .operation, some "($self, /)",
     some "Return a copy of the string converted to uppercase."⟩,
   ⟨"startswith", .operation, none,
     some ("S.startswith(prefix[, start[, end]]) -> bool\n\n" ++
        "Return True if S starts with the specified prefix, False otherwise.\n" ++
        "With optional start, test S beginning at that position.\n" ++
        "With optional end, stop comparing S at that position.\n" ++
        "prefix can also be a tuple of strings to try.")⟩,
   ⟨"endswith", .operation, none,
     some ("S.endswith(suffix[, start[, end]]) -> bool\n\n" ++
        "Return True if S ends with the specified suffix, False otherwise.\n" ++
        "With optional start, test S beginning at that position.\n" ++
        "With optional end, stop comparing S at that position.\n" ++
        "suffix can also be a tuple of strings to try.")⟩,
   ⟨"removeprefix", .operation, some "($self, prefix, /)",
     some ("Return a str with the given prefix string removed if present.\n\n" ++
        "If the string starts with the prefix string, return string[len(prefix):].\n" ++
        "Otherwise, return a copy of the original string.")⟩,
   ⟨"removesuffix", .operation, some "($self, suffix, /)",
     some ("Return a str with the given suffix string removed if present.\n\n" ++
        "If the string ends with the suffix string and that suffix is not empty,\n" ++
        "return string[:-len(suffix)]. Otherwise, return a copy of the original\n" ++
        "string.")⟩,
   ⟨"isascii", .operation, some "($self, /)",
     some ("Return True if all characters in the string are ASCII, False otherwise.\n\n" ++
        "ASCII characters have code points in the range U+0000-U+007F.\n" ++
        "Empty string is ASCII too.")⟩,
   ⟨"islower", .operation, some "($self, /)",
     some ("Return True if the string is a lowercase string, False otherwise.\n\n" ++
        "A string is lowercase if all cased characters in the string are lowercase and\n" ++
        "there is at least one cased character in the string.")⟩,
   ⟨"isupper", .operation, some "($self, /)",
     some ("Return True if the string is an uppercase string, False otherwise.\n\n" ++
        "A string is uppercase if all cased characters in the string are uppercase and\n" ++
        "there is at least one cased character in the string.")⟩,
   ⟨"istitle", .operation, some "($self, /)",
     some ("Return True if the string is a title-cased string, False otherwise.\n\n" ++
        "In a title-cased string, upper- and title-case characters may only\n" ++
        "follow uncased characters and lowercase characters only cased ones.")⟩,
   ⟨"isspace", .operation, some "($self, /)",
     some ("Return True if the string is a whitespace string, False otherwise.\n\n" ++
        "A string is whitespace if all characters in the string are whitespace and there\n" ++
        "is at least one character in the string.")⟩,
   ⟨"isdecimal", .operation, some "($self, /)",
     some ("Return True if the string is a decimal string, False otherwise.\n\n" ++
        "A string is a decimal string if all characters in the string are decimal and\n" ++
        "there is at least one character in the string.")⟩,
   ⟨"isdigit", .operation, some "($self, /)",
     some ("Return True if the string is a digit string, False otherwise.\n\n" ++
        "A string is a digit string if all characters in the string are digits and there\n" ++
        "is at least one character in the string.")⟩,
   ⟨"isnumeric", .operation, some "($self, /)",
     some ("Return True if the string is a numeric string, False otherwise.\n\n" ++
        "A string is numeric if all characters in the string are numeric and there is at\n" ++
        "least one character in the string.")⟩,
   ⟨"isalpha", .operation, some "($self, /)",
     some ("Return True if the string is an alphabetic string, False otherwise.\n\n" ++
        "A string is alphabetic if all characters in the string are alphabetic and there\n" ++
        "is at least one character in the string.")⟩,
   ⟨"isalnum", .operation, some "($self, /)",
     some ("Return True if the string is an alpha-numeric string, False otherwise.\n\n" ++
        "A string is alpha-numeric if all characters in the string are alpha-numeric and\n" ++
        "there is at least one character in the string.")⟩,
   ⟨"isidentifier", .operation, some "($self, /)",
     some ("Return True if the string is a valid Python identifier, False otherwise.\n\n" ++
        "Call keyword.iskeyword(s) to test whether string s is a reserved identifier,\n" ++
        "such as \"def\" or \"class\".")⟩,
   ⟨"isprintable", .operation, some "($self, /)",
     some ("Return True if the string is printable, False otherwise.\n\n" ++
        "A string is printable if all of its characters are considered printable in\n" ++
        "repr() or if it is empty.")⟩,
   ⟨"zfill", .operation, some "($self, width, /)",
     some ("Pad a numeric string with zeros on the left, to fill a field of the given width.\n\n" ++
        "The string is never truncated.")⟩,
   ⟨"format", .operation, none,
     some ("S.format(*args, **kwargs) -> str\n\n" ++
        "Return a formatted version of S, using substitutions from args and kwargs.\n" ++
        "The substitutions are identified by braces ('\x7b' and '\x7d').")⟩,
   ⟨"format_map", .operation, none,
     some ("S.format_map(mapping) -> str\n\n" ++
        "Return a formatted version of S, using substitutions from mapping.\n" ++
        "The substitutions are identified by braces ('\x7b' and '\x7d').")⟩,
   ⟨"__format__", .operation, some "($self, format_spec, /)",
     some "Return a formatted version of the string as described by format_spec."⟩,
   ⟨"maketrans", .standalone, some "(x, y=<unrepresentable>, z=<unrepresentable>, /)",
     some ("Return a translation table usable for str.translate().\n\n" ++
        "If there is only one argument, it must be a dictionary mapping Unicode\n" ++
        "ordinals (integers) or characters to Unicode ordinals, strings or None.\n" ++
        "Character keys will be then converted to ordinals.\n" ++
        "If there are two arguments, they must be strings of equal length, and\n" ++
        "in the resulting dictionary, each character in x will be mapped to the\n" ++
        "character at the same position in y. If there is a third argument, it\n" ++
        "must be a string, whose characters will be mapped to None in the result.")⟩,
   ⟨"__sizeof__", .operation, some "($self, /)",
     some "Return the size of the string in memory, in bytes."⟩,
   ⟨"__getnewargs__", .operation, none, none⟩,
   ⟨"__doc__", .note, none, none⟩]

end Member

end Template

end CallByValue
