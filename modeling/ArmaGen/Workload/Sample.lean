import ArmaGen.Text.Words

/-!
# Sample programs

Programs of any size: scripts that go through a list of lines again and again, and texts that repeat
a pattern with growing numbers.
-/

namespace ArmaGen.Sample

/-! ### Repetition -/

def cycle (items : List String) (n : Nat) : List String :=
  (List.range n).map fun i => items.getD (i % items.length) ""

def numbered (n : Nat) (pattern : Nat → List String) : List String :=
  (List.range n).flatMap pattern

def ofLines (lines : List String) : String :=
  joinWith "\n" lines

def ofEndedLines (lines : List String) : String :=
  String.join (lines.map (· ++ "\n"))

/-! ### Scripts of statements -/

def statementLines : List String :=
  ["a = 4", "b = 5.", "c = 'hello'", "d = [1, 2, 3]", "e = [4; 5; 6]", "f = [1 2; 3 4]",
    "g = a + b*2 - 3/4", "h = (a > b) && (b < 10)", "k = d .* d + e' * 2", "m = zeros(3, 3)",
    "n = ones(2, 4)", "p = eye(3)", "q = a^2 + b.^2", "r = d(1) + e(end)", "s = f(1, 2)",
    "t = f(:, 1)", "u = f(1, :)", "v = length(d)", "w = size(f)", "x = abs(-3.5)",
    "y = sqrt(16)", "z = max(d) + min(e)"]

def statements (n : Nat) : String :=
  ofLines (cycle statementLines n)

def operatorLines : List String :=
  ["a = 1 + 2 - 3", "b = 4 * 5 / 6", "c = 7 \\ 8", "d = 2^3", "e = 2.^3",
    "f = [1, 2] .* [3, 4]", "g = [1, 2] ./ [3, 4]", "h = [1, 2] .\\ [3, 4]", "ii = ~0",
    "jj = -5", "ll = 3i + 2.5i", "mm = 1e3 + 2.5e-4 + 3d2", "nn = 1:10", "oo = 1:2:10",
    "pp = (1 < 2) & (3 > 2)", "qq = (1 <= 2) | (3 >= 2)", "rr = (1 == 1) && (2 ~= 3)",
    "ss = (1 == 1) || (2 ~= 3)", "tt = [1, 2, 3]'", "uu = [1, 2, 3].'",
    "vv = [1; 2] * [1, 2]", "ww = [1, 2; 3, 4] * [1; 2]", "xx = [1, 2] * [1; 2]"]

def operators (n : Nat) : String :=
  ofLines (cycle operatorLines n)

def callLines : List String :=
  ["A = rand(4, 4)", "B = zeros(3, 3)", "C = ones(2, 2)", "D = eye(4)",
    "v = linspace(0, 1, 10)", "w = length(v)", "x = size(A, 1)", "y = max(v)", "z = min(v)",
    "p = abs(-3)", "q = sqrt(2)", "q2 = 2i", "r = floor(3.7)", "s = round(2.3)", "t = sum(v)",
    "u = real(A) + imag(A)", "F = fft(v)", "G = ifft(F)", "H = conj(A)", "I = transpose(A)",
    "J = ctranspose(A)", "K = flipud(A)", "L = diag(A)", "nn = nextpow2(8)", "cc = chol(A)",
    "any(v)", "all(v)", "not(1)", "and(1, 0)", "isequal(1, 1)", "interp1(v, v, 0.5)",
    "convmtx(v, 3)", "conv2(A, A)", "error('msg')", "disp('hi')", "disp(3)", "tic", "toc",
    "clear", "close"]

def calls (n : Nat) : String :=
  ofLines (cycle callLines n)

def indexingLines : List String :=
  ["a1 = V(1)", "a2 = V(1:3)", "a3 = V(:)", "V(2) = 1", "V(1:2) = [1; 2]", "V(end) = 0",
    "b1 = R(1)", "b2 = R(1:3)", "b3 = R(:)", "R(2) = 1", "R(end) = 0", "c1 = M(1, 2)",
    "c2 = M(1:2, 1:2)", "c3 = M(:, 1)", "c4 = M(1, :)", "c5 = M(end, end)", "M(1, 2) = 3",
    "M(:, 1) = [1; 2]", "M(1, :) = [1, 2]", "d1 = C(1)"]

def indexings (n : Nat) : String :=
  ofLines (cycle indexingLines n)

def mistakes : List String :=
  ["a**b", "a = (1 + 2", "a = [1, 2", "a = 'unterminated", "function\n", "a = \x7b1, 2",
    "if\nend"]

/-! ### Branches and loops -/

def branchLines : List String :=
  ["", "if a > 0", "    b = 1", "elseif a < 0", "    b = -1", "else", "    b = 0", "end",
    "for k = 1:10", "    c = c + k", "end", "parfor k = 1:10", "    c = c + k", "end",
    "while c > 0", "    c = c - 1", "    if c == 5", "        break", "    end", "    continue",
    "end", "switch a", "    case 1", "        d = 1", "    case \x7b2, 3\x7d", "        d = 2",
    "    otherwise", "        d = 0", "end", "try", "    e = 1", "catch err", "    e = 0", "end",
    "try", "    e = 2", "catch", "    e = -1", "end"]

def branchBlock : String :=
  ofEndedLines branchLines

/-- A script with `n` times each kind of branch and loop. -/
def branches (n : Nat) : String :=
  ofEndedLines ["a = 1", "b = 0", "c = 10", "d = 0", "e = 0"] ++
    String.join (List.replicate n branchBlock)

/-- A script with values of all sorts, branches, loops and `n` assignments. -/
def mixture (n : Nat) : String :=
  ofEndedLines ["a = 4", "b = 5.", "c = 'hello'", "d = [1, 2, 3]", "s.a = 4", "arr(3).b = 5",
    "c = \x7b1, 2\x7d"] ++ branchBlock ++ statements n

def branchesFirst (n : Nat) : String :=
  ofEndedLines ["a = 1", "c = 10"] ++ branchBlock ++ statements n

/-! ### Comments -/

def commentLines : List String :=
  ["a = 1 % end of line comment", "% full line comment", "%\x7b", "block comment body",
    "with several lines", "%\x7d", "b = 2 + ...", "    3", "c = 'a string with %% percent'",
    "d = [1, ...", "     2]"]

def closeComment (lines : List String) : List String :=
  if lines.count "%\x7d" < lines.count "%\x7b" then lines ++ ["%\x7d"] else lines

/-- A script of `n` lines with comments, and two lines with their own output after them. -/
def comments (n : Nat) : String :=
  ofEndedLines (closeComment (cycle commentLines n) ++
    ["___hook___", "___inline___int x = 0;___"])

/-! ### Records, cells and functions -/

/-- A script with a record and a list of records, each with about `n` fields. -/
def records (n : Nat) : String :=
  ofLines (numbered n (fun i => [s!"s.f{i} = {i}", s!"s.f{i + n} = [1, 2, 3]"]) ++
    ["tmp = " ++ joinWith " + " (numbered n fun i => [s!"s.f{i}"])] ++
    numbered n (fun i => [s!"s.f{i + n}(1) = {i}", s!"u{i} = s.f{i + n}(2)"]) ++
    numbered n (fun i => [s!"arr({i + 1}).val = {i}"]) ++
    ["tot = " ++ joinWith " + " (numbered n fun i => [s!"arr({i + 1}).val"]),
      "v = [arr.val]", "x.(nm) = 3", "y = x.(nm)"])

/-- A script with cells and `n` functions without names. -/
def cells (n : Nat) : String :=
  ofLines (["c = \x7b" ++ joinWith ", " (numbered n fun i => [s!"{i}"]) ++ "\x7d",
      "d = \x7b'a', 'b', 1, 2.\x7d"] ++
    numbered n (fun i => [s!"e{i} = \x7b{i + 1}\x7d"]) ++ ["x = 4"] ++
    numbered n (fun i => [s!"g{i} = @(a, b) a + b + x + {i}", s!"y{i} = g{i}(1, 2.)"]) ++
    ["h = @() x", "z = h()"])

def caller (lines : List String) : List String :=
  ["function g()"] ++ lines.map ("    " ++ ·) ++ ["end"]

/-- `n` functions with one result, and a function that calls them. -/
def functions (n : Nat) : String :=
  ofEndedLines (numbered n (fun i => [s!"function y = f{i}(x)", s!"    y = x + {i}", "end"]) ++
    caller (numbered n fun i => [s!"x{i} = f{i}({i})"]))

/-- Functions with several results and with any number of arguments, each called `n` times. -/
def results (n : Nat) : String :=
  ofEndedLines (["", "function [a, b, c] = triple(x)", "    a = x + 1", "    b = x * 2.",
      "    c = 'done'", "end", "function out = wrap(varargin)", "    n = nargin",
      "    out = n + 1", "end"] ++
    caller (numbered n fun i =>
      [s!"[p{i}, q{i}, r{i}] = triple({i})", s!"s{i} = wrap({i})"]))

/-! ### A whole program -/

/-- Two functions that remove noise from traces by prediction over frequencies. -/
def prediction : String :=
  ofEndedLines ["", "function [DATA_f] = fx_decon(DATA,dt,lf,mu,flow,fhigh);",
    " [nt,ntraces] = size(DATA);", " nf = 2^nextpow2(nt);", " DATA_FX_f = zeros(nf,ntraces);",
    " DATA_FX_b = zeros(nf,ntraces);", " ilow  = floor(flow*dt*nf)+1;", "  if ilow<1;",
    "   ilow=1;", "  end;", " ihigh = floor(fhigh*dt*nf)+1;", "  if ihigh > floor(nf/2)+1;",
    "   ihigh=floor(nf/2)+1;", "  end", " DATA_FX = fft(DATA,nf,1);", " for k = ilow:ihigh;",
    "  aux_in  = DATA_FX(k,:)';", "  [aux_out_f,aux_out_b] = ar_modeling(aux_in,lf,mu);",
    "  DATA_FX_f(k,:) = aux_out_f';", "  DATA_FX_b(k,:) = aux_out_b';", " end;",
    " for k=nf/2+2:nf", "  DATA_FX_f(k,:) = conj(DATA_FX_f(nf-k+2,:));",
    "  DATA_FX_b(k,:) = conj(DATA_FX_b(nf-k+2,:));", " end",
    " DATA_f = real(ifft(DATA_FX_f,[],1));", " DATA_f = DATA_f(1:nt,:);",
    " DATA_b = real(ifft(DATA_FX_b,[],1));", " DATA_b = DATA_b(1:nt,:);",
    " DATA_f = (DATA_f + DATA_b);",
    " DATA_f(:,lf+1:ntraces-lf)= DATA_f(:,lf+1:ntraces-lf)/2;", "return",
    "function [yf,yb] = ar_modeling(x,lf,mu);", "   nx = length(x);", "   y  = x(1:nx-lf,1);",
    "   C  = x(2:nx-lf+1,1);", "   R  = x(nx-lf+1:nx,1);", "   M = hankel(C,R);",
    "   B = M'*M;  beta = B(1,1)*mu/100;", "   ab = (B + beta*eye(lf))\\M'*y;",
    "   temp = M*ab;", "   temp = [temp;zeros(lf,1)];", "   yb = temp;", "   y  = x(lf+1:nx,1);",
    "   C  = x(lf:nx-1,1);", "   R = flipud(x(1:lf,1));", "   M = toeplitz(C,R);",
    "   B = M'*M;  beta = B(1,1)*mu/100;", "   af = (B + beta*eye(lf))\\M'*y;",
    "   temp = M*af;", "   temp = [zeros(lf,1);temp];", "   yf = temp;", "return"]

end ArmaGen.Sample
